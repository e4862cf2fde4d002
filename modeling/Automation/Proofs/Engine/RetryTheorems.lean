/-
Automation.Proofs.Engine.RetryTheorems — how often a node is attempted, and
what its record tells of it.

The attempt that decides on a node is the first one to answer, if it is one
of the attempts that there may be, and else the last of these
(`Driver.decisive`). `NodeRun.Reports` says how the record of a node follows
from the rounds of attempts: as many of them as that, each one as long after
the one before as the policy says, and the output or the error of the last.
A node that is cut off has come as far as the attempt or the wait in which
it was (`Driver.Breaks`).

`Driver.holds_tellNode_exact` proves it of every node in exact company.
-/
import Automation.Proofs.Engine.RoundTheorems

namespace Automation

open Process

/-! ## Results -/

/-- Whether an attempt has answered. -/
def Ending.answers {α : Type} : Ending α → Bool
  | .answer _ => true
  | _ => false

/-- The lines that say that another attempt is to follow. -/
def Line.retries (lines : List Line) : List Line :=
  lines.filter isRetry

@[simp] theorem Line.retries_append (lines more : List Line) :
    retries (lines ++ more) = retries lines ++ retries more :=
  List.filter_append lines more

@[simp] theorem Line.retries_owns (now : Nat) (notes : List Note) :
    retries (owns now notes) = [] := by
  simp [retries, owns, isRetry]

namespace Driver

/-- The number of the attempt that decides on a node, if these are the results of
its attempts: the first one to answer, or else the last there may be. -/
def decisive (results : Nat → Ending Output) (most : Nat) : Nat :=
  ((List.range' 1 most).find? fun number => (results number).answers).getD most

theorem decisive_eq {results : Nat → Ending Output} {most last : Nat} (hpos : 1 ≤ last)
    (hle : last ≤ most) (hfailed : ∀ i, 1 ≤ i → i < last → (results i).answers = false)
    (hlast : last = most ∨ (results last).answers = true) : decisive results most = last := by
  unfold decisive
  by_cases hanswers : (results last).answers = true
  · have hfind : (List.range' 1 most).find? (fun i => (results i).answers) = some last := by
      refine List.find?_range'_eq_some.mpr ⟨hanswers, List.mem_range'_1.mpr ⟨hpos, by omega⟩, ?_⟩
      intro i hi hlt
      simp [hfailed i hi hlt]
    rw [hfind]
    rfl
  · obtain rfl := hlast.resolve_right hanswers
    have hfind : (List.range' 1 last).find? (fun i => (results i).answers) = none := by
      refine List.find?_eq_none.mpr fun i hi => ?_
      obtain ⟨hi, hlt⟩ := List.mem_range'_1.mp hi
      rcases Nat.lt_or_ge i last with hlt' | hge
      · simp [hfailed i hi hlt']
      · obtain rfl : i = last := by omega
        exact hanswers
    rw [hfind]
    rfl

theorem ofEnding_answers {ending : Ending Output}
    (h : ∀ error, Verdict.ofEnding ending ≠ .failed error) : ending.answers = true := by
  cases ending with
  | answer output => rfl
  | failure message => exact absurd rfl (h message)
  | panic text => exact absurd rfl (h _)

theorem answers_of_failed {ending : Ending Output} {error : String}
    (h : Verdict.ofEnding ending = .failed error) : ending.answers = false := by
  cases ending with
  | answer output => cases h
  | failure message => rfl
  | panic text => rfl

/-! ## Rounds -/

/-- These are the results that the attempts were to have, that of the attempt of
number one first. -/
def Gives (rounds : List Round) (results : Nat → Ending Output) : Prop :=
  ∀ i round finish, rounds[i]? = some round → round.course.finish = some finish →
    finish.ending = results (i + 1)

section

variable (d : Driver)

/-- The attempt came to this end, in this state. -/
structure Ended (round : Round) (finish : Finish) (w : World) : Prop where
  after : round.after = some w
  ends : round.course.finish = some finish
  now : w.now = round.before.now + span finish
  live : d.Live w

/-- The attempt of this number led to another attempt, after the delay. -/
def Leads (number : Nat) (round next : Round) : Prop :=
  ∃ finish w, d.Ended round finish w ∧ finish.ending.answers = false ∧
    next.before.now = w.now + d.workflow.settings.retryPolicy.delay number

/-- Lines that say, each of one attempt, that another one is to follow: they give
the number of the attempt, what came of it, and the instant at which it ended. -/
inductive Retries : (number : Nat) → List Line → List Round → Prop where
  | nil {number : Nat} {rounds : List Round} : Retries number [] rounds
  | cons {number : Nat} {lines : List Line} {rounds : List Round} {round : Round}
      {finish : Finish} {w : World} {error : String} : d.Ended round finish w →
      .ofEnding finish.ending = Verdict.failed error → Retries (number + 1) lines rounds →
      Retries number (.retry w.now number error :: lines) (round :: rounds)

/-- How a node is cut off that is attempted from a number on, `most` being the
number of the last attempt that there may be. `retries` is the number of attempts
that another one was to follow, and `last` is the number that the node has come
to. -/
inductive Breaks (number most now : Nat) (verdict : Verdict) (w : World) :
    (retries : Nat) → List Round → (last : Nat) → Prop where
  /-- It is cut off as soon as there is to be an attempt. -/
  | ahead {rounds : List Round} {last since : Nat} : rounds.length + number = last →
      (rounds = [] ∧ since = now ∨ ∃ round finish w₁, rounds.getLast? = some round ∧
        d.Ended round finish w₁ ∧ finish.ending.answers = false ∧
        since = w₁.now + d.workflow.settings.retryPolicy.delay (last - 1)) →
      d.CutOff since (some 0) verdict w →
      Breaks number most now verdict w rounds.length rounds last
  /-- It is cut off while an attempt lasts. -/
  | amid {rounds : List Round} {last : Nat} {before : World} {course : Attempt} :
      rounds.length + number = last + 1 → rounds.getLast? = some ⟨before, course, none⟩ →
      d.CutOff before.now (course.finish.map span) verdict w →
      Breaks number most now verdict w (rounds.length - 1) rounds last
  /-- It is cut off in the wait after an attempt that has failed. -/
  | between {rounds : List Round} {last : Nat} {round : Round} {finish : Finish} {w₁ : World} :
      rounds.length + number = last + 1 → last < most → rounds.getLast? = some round →
      d.Ended round finish w₁ → finish.ending.answers = false →
      d.CutOff w₁.now (some (d.workflow.settings.retryPolicy.delay last)) verdict w →
      Breaks number most now verdict w rounds.length rounds last

end

section

variable {d : Driver} {executor : Executor} {node : Node} {run : Run}
  {more number now last : Nat} {lines : List Line} {rounds : List Round} {verdict : Verdict}
  {w : World}

theorem CutOff.not_decides {most : Option Nat} (h : d.CutOff now most verdict w) :
    ¬verdict.Decides := by
  have hcuts := h.cuts
  cases verdict with
  | completed output => exact hcuts.elim
  | failed error => exact hcuts.elim
  | cancelled => exact id
  | timedOut => exact id

theorem decides_ofEnding (ending : Ending Output) : (Verdict.ofEnding ending).Decides := by
  cases ending <;> trivial

/-! ### One attempt -/

namespace Attempts

theorem begins (h : d.Attempts executor node run now lines rounds verdict w) :
    ∀ round ∈ rounds, d.Begins executor node run round.before round.course ∧
      round.before.now = now := by
  cases h with
  | skipped _ => simp
  | cut hbegins hnow _ => simpa using ⟨hbegins, hnow⟩
  | ended hbegins hnow _ _ _ => simpa using ⟨hbegins, hnow⟩

theorem retries (h : d.Attempts executor node run now lines rounds verdict w) :
    Line.retries lines = [] := by
  cases h with
  | skipped _ => rfl
  | cut _ _ _ => simp
  | ended _ _ _ _ _ => simp

/-- An attempt that another one is to follow. -/
theorem retries_again (h : d.Attempts executor node run now lines rounds verdict w)
    (now' number : Nat) (error : String) (others : List Line) :
    Line.retries (lines ++ .retry now' number error :: others) =
      .retry now' number error :: Line.retries others := by
  rw [Line.retries_append, h.retries]
  rfl

/-- An attempt that decides has come to its end. -/
theorem decided (h : d.Attempts executor node run now lines rounds verdict w)
    (hd : verdict.Decides) : ∃ round finish, rounds = [round] ∧ d.Ended round finish w ∧
      round.before.now = now ∧ verdict = .ofEnding finish.ending := by
  cases h with
  | skipped hoff => exact absurd hd hoff.not_decides
  | cut _ _ hoff => exact absurd hd hoff.not_decides
  | @ended before course finish w _ hnow hfinish hlive hend =>
    exact ⟨⟨before, course, some w⟩, finish, rfl, ⟨rfl, hfinish, hnow ▸ hend, hlive⟩, hnow, rfl⟩

/-- An attempt that fails has come to its end. -/
theorem failed {error : String}
    (h : d.Attempts executor node run now lines rounds (.failed error) w) :
    ∃ round finish, rounds = [round] ∧ d.Ended round finish w ∧ round.before.now = now ∧
      finish.ending.answers = false := by
  obtain ⟨round, finish, hrounds, hended, hnow, hverdict⟩ := h.decided trivial
  exact ⟨round, finish, hrounds, hended, hnow, answers_of_failed hverdict.symm⟩

theorem length_le (h : d.Attempts executor node run now lines rounds verdict w) :
    rounds.length ≤ 1 := by
  cases h <;> simp

theorem breaks (h : d.Attempts executor node run now lines rounds verdict w)
    (hd : ¬verdict.Decides) (number most : Nat) :
    d.Breaks number most now verdict w 0 rounds number := by
  cases h with
  | skipped hoff => exact .ahead (Nat.zero_add _) (Or.inl ⟨rfl, rfl⟩) hoff
  | @cut before course verdict w _ hnow hoff =>
    subst hnow
    show d.Breaks number most before.now verdict w ([Round.mk before course none].length - 1) _ _
    exact .amid (Nat.add_comm _ _) rfl hoff
  | @ended _ _ finish _ _ _ _ _ _ => exact absurd (decides_ofEnding finish.ending) hd

end Attempts

/-! ### All attempts -/

/-- What comes after an attempt that has led to it. -/
theorem Breaks.again {most retries : Nat} {round : Round} {finish : Finish} {w₁ : World}
    (hended : d.Ended round finish w₁) (hfailed : finish.ending.answers = false)
    (h : d.Breaks (number + 1) most (w₁.now + d.workflow.settings.retryPolicy.delay number)
      verdict w retries rounds last) (hlast : number < last) :
    d.Breaks number most now verdict w (retries + 1) (round :: rounds) last := by
  have hgetLast : ∀ {r : Round}, rounds.getLast? = some r →
      (round :: rounds).getLast? = some r := by
    intro r hr
    rw [List.getLast?_cons, hr]
    rfl
  have hcount : rounds.length + 1 = (round :: rounds).length := rfl
  cases h with
  | @ahead _ _ since hlength hsince hoff =>
    rw [hcount]
    refine .ahead (by omega) (Or.inr ?_) hoff
    rcases hsince with ⟨rfl, rfl⟩ | ⟨r, f, w₂, hr, hsince⟩
    · obtain rfl : number + 1 = last := by simpa using hlength
      exact ⟨round, finish, w₁, rfl, hended, hfailed, rfl⟩
    · exact ⟨r, f, w₂, hgetLast hr, hsince⟩
  | amid hlength hr hoff =>
    have hretries : rounds.length - 1 + 1 = (round :: rounds).length - 1 := by omega
    rw [hretries]
    exact .amid (by omega) (hgetLast hr) hoff
  | between hlength hlt hr hend hfail hoff =>
    rw [hcount]
    exact .between (by omega) hlt (hgetLast hr) hend hfail hoff

namespace Pursues

variable (h : d.Pursues executor node run more number now lines rounds last verdict w)

include h

theorem last_le : number ≤ last ∧ last ≤ number + more := by
  induction h with
  | last _ _ => omega
  | waiting _ _ => omega
  | again _ _ ih => omega

theorem begins : ∀ round ∈ rounds, d.Begins executor node run round.before round.course := by
  induction h with
  | last hattempts _ => exact fun round hr => (hattempts.begins round hr).1
  | waiting hattempts _ => exact fun round hr => (hattempts.begins round hr).1
  | again hattempts _ ih =>
    intro round hr
    rcases List.mem_append.mp hr with hr | hr
    · exact (hattempts.begins round hr).1
    · exact ih round hr

/-- There is an attempt at once, if at all. -/
theorem head (round : Round) (hround : rounds.head? = some round) : round.before.now = now := by
  cases h with
  | last hattempts _ => exact (hattempts.begins round (List.mem_of_head? hround)).2
  | waiting hattempts _ => exact (hattempts.begins round (List.mem_of_head? hround)).2
  | again hattempts _ =>
    obtain ⟨r, finish, rfl, -, hnow, -⟩ := hattempts.failed
    cases hround
    exact hnow

/-- **Attempts follow each other at the intervals of the policy.** -/
theorem leads : ∀ i round next, rounds[i]? = some round → rounds[i + 1]? = some next →
    d.Leads (number + i) round next := by
  have hsingle : ∀ {rounds : List Round}, rounds.length ≤ 1 → ∀ i, rounds[i + 1]? = none :=
    fun hle i => List.getElem?_eq_none (Nat.le_trans hle (Nat.le_add_left 1 i))
  induction h with
  | last hattempts _ =>
    intro i round next _ hnext
    cases (hsingle hattempts.length_le i).symm.trans hnext
  | waiting hattempts _ =>
    intro i round next _ hnext
    cases (hsingle hattempts.length_le i).symm.trans hnext
  | @again more number _ _ _ _ _ _ w₁ _ _ _ hattempts hpursues ih =>
    obtain ⟨r, finish, rfl, hended, -, hfailed⟩ := hattempts.failed
    intro i round next hround hnext
    cases i with
    | zero =>
      cases hround
      refine ⟨finish, w₁, hended, hfailed, hpursues.head next ?_⟩
      rwa [List.head?_eq_getElem?]
    | succ i =>
      have hleads := ih i round next hround hnext
      rwa [Nat.add_right_comm] at hleads

/-- A node that was not cut off: the last attempt decides, and it is the last one
there may be or has answered. -/
theorem decided (hd : verdict.Decides) : ∃ round finish, rounds.getLast? = some round ∧
    rounds.length + number = last + 1 ∧ d.Ended round finish w ∧
    verdict = .ofEnding finish.ending ∧
    (last = number + more ∨ finish.ending.answers = true) ∧
    (Line.retries lines).length = rounds.length - 1 := by
  induction h with
  | last hattempts hend =>
    obtain ⟨round, finish, rfl, hended, -, rfl⟩ := hattempts.decided hd
    refine ⟨round, finish, rfl, Nat.add_comm _ _, hended, rfl, ?_, by rw [hattempts.retries]; rfl⟩
    exact hend.imp (fun hmore => by rw [hmore]; rfl) ofEnding_answers
  | waiting _ hoff => exact absurd hd hoff.not_decides
  | again hattempts hpursues ih =>
    obtain ⟨r, -, rfl, -⟩ := hattempts.failed
    obtain ⟨round, finish, hround, hlength, hended, hverdict, hend, hretries⟩ := ih hd
    have hle := hpursues.last_le.1
    refine ⟨round, finish, ?_, ?_, hended, hverdict, hend.imp_left fun hlast => by omega, ?_⟩
    · rw [List.singleton_append, List.getLast?_cons, hround]
      rfl
    · simp only [List.singleton_append, List.length_cons]
      omega
    · rw [hattempts.retries_again, List.length_cons, hretries]
      simp only [List.singleton_append, List.length_cons]
      omega

/-- A node that was cut off. -/
theorem breaks (hd : ¬verdict.Decides) :
    d.Breaks number (number + more) now verdict w (Line.retries lines).length rounds last := by
  induction h with
  | last hattempts _ =>
    rw [hattempts.retries]
    exact hattempts.breaks hd _ _
  | waiting hattempts hoff =>
    obtain ⟨round, finish, rfl, hended, -, hfailed⟩ := hattempts.failed
    rw [hattempts.retries_again]
    show d.Breaks _ _ _ _ _ [round].length [round] _
    exact .between (Nat.add_comm _ _) (by omega) rfl hended hfailed hoff
  | again hattempts hpursues ih =>
    obtain ⟨round, finish, rfl, hended, -, hfailed⟩ := hattempts.failed
    have hbreaks := ih hd
    rw [Nat.add_right_comm] at hbreaks
    rw [hattempts.retries_again]
    exact hbreaks.again hended hfailed hpursues.last_le.1

/-- **Each retry is noted** when the attempt before it has failed. -/
theorem retried : d.Retries number (Line.retries lines) rounds := by
  induction h with
  | last hattempts _ =>
    rw [hattempts.retries]
    exact .nil
  | waiting hattempts _ =>
    obtain ⟨round, finish, rfl, hended, -, hverdict⟩ := hattempts.decided trivial
    rw [hattempts.retries_again]
    exact .cons hended hverdict.symm .nil
  | again hattempts _ ih =>
    obtain ⟨round, finish, rfl, hended, -, hverdict⟩ := hattempts.decided trivial
    rw [hattempts.retries_again]
    exact .cons hended hverdict.symm ih

/-- **The attempt that decides** is the one that is to decide by the results, and
the verdict is its result. -/
theorem decisive {results : Nat → Ending Output} {most : Nat} (hnumber : number = 1)
    (hmost : number + more = most) (hd : verdict.Decides) (hgives : Gives rounds results) :
    rounds.length = last ∧ last = Driver.decisive results most ∧
      verdict = .ofEnding (results last) := by
  subst hnumber hmost
  obtain ⟨round, finish, hround, hlength, hended, hverdict, hend, -⟩ := h.decided hd
  have hlast : rounds.length = last := Nat.succ.inj hlength
  have hpos : 1 ≤ last := h.last_le.1
  rw [List.getLast?_eq_getElem?] at hround
  have hresult : finish.ending = results last := by
    rw [hgives _ _ _ hround hended.ends]
    congr 1
    omega
  rw [hresult] at hverdict hend
  refine ⟨hlast, (decisive_eq hpos h.last_le.2 ?_ hend).symm, hverdict⟩
  intro i hi hlt
  obtain ⟨i, rfl⟩ := Nat.exists_eq_add_of_le' hi
  -- an attempt that is not the last one has led to another one
  have hround : rounds[i]? = some rounds[i] := List.getElem?_eq_getElem (by omega)
  have hnext : rounds[i + 1]? = some rounds[i + 1] := List.getElem?_eq_getElem (by omega)
  obtain ⟨f, w', hended', hfailed, -⟩ := h.leads i _ _ hround hnext
  rwa [hgives _ _ _ hround hended'.ends] at hfailed

end Pursues

end

end Driver

/-! ## Logs -/

/-- The entry that is made of a line. -/
def Line.entry (settings : Settings) (line : Line) : LogEntry where
  timestamp := .reading line.now
  level := (line.note settings).level
  message := (line.note settings).message
  data := (line.note settings).data

/-- A log has the entries of the lines that it keeps. -/
theorem Logger.writeLines_entries (settings : Settings) (lines : List Line) : ∀ log : Logger,
    (log.writeLines settings lines).entries = log.entries ++
      (lines.filter fun line => log.keeps (line.note settings).level).map
        (Line.entry settings) := by
  induction lines with
  | nil => exact fun log => (List.append_nil _).symm
  | cons line lines ih =>
    intro log
    have hkeeps : ∀ level, (log.write line.now (line.note settings)).keeps level =
        log.keeps level := by
      intro level
      unfold write
      split <;> rfl
    show ((log.write line.now (line.note settings)).writeLines settings lines).entries = _
    rw [ih]
    simp only [hkeeps]
    unfold write
    split
    · next hkept =>
      rw [List.filter_cons, if_pos hkept, List.map_cons, List.append_assoc]
      rfl
    · next hkept => rw [List.filter_cons, if_neg hkept]

/-- A log keeps all lines that say that another attempt is to follow, or none. -/
theorem Line.retries_kept (log : Logger) (settings : Settings) (lines : List Line) :
    retries (lines.filter fun line => log.keeps (line.note settings).level) =
      if log.keeps .warn then retries lines else [] := by
  unfold retries
  rw [List.filter_filter]
  split
  · next hkeeps =>
    refine List.filter_congr fun line _ => ?_
    cases line with
    | own now note => rfl
    | retry now number error => exact hkeeps
  · next hkeeps =>
    refine List.filter_eq_nil_iff.mpr fun line _ => ?_
    cases line with
    | own now note => simp [isRetry]
    | retry now number error =>
      have hnote : log.keeps ((retry now number error).note settings).level = log.keeps .warn := rfl
      simpa [isRetry, hnote] using hkeeps

/-! ## Records -/

/-- **What the record of a node tells of the attempts at it**, which began at an
instant and came to a verdict in the state `w`. -/
structure NodeRun.Reports (d : Driver) (node : Node) (asked : Run) (begun : Nat)
    (rounds : List Round) (retries : Nat) (verdict : Verdict) (w : World) (record : NodeRun) :
    Prop where
  nodeId : record.nodeId = node.id
  status : record.status = verdict.status
  output : record.output = verdict.output?
  error : record.error = verdict.error? d.workflow.settings
  ended : record.completedAt = some (.reading w.now)
  /-- Each attempt is a call of the executor, when the run is neither cancelled nor
  its time up. -/
  called : ∀ round ∈ rounds, ∃ executor, d.executors node.type = some executor ∧
    d.Begins executor node asked round.before round.course
  /-- The first one is made at once, -/
  first : ∀ round, rounds.head? = some round → round.before.now = begun
  /-- and each other one when the one before has failed and exactly the delay has
  passed that the policy has for it. -/
  leads : ∀ i round next, rounds[i]? = some round → rounds[i + 1]? = some next →
    d.Leads (i + 1) round next
  /-- If the node is not cut off, there are as many attempts as it takes to decide,
  and the last one gives the verdict when it ends. -/
  decided : verdict.Decides → (d.executors node.type).isSome = true →
    rounds.length = record.attempts ∧ retries = record.attempts - 1 ∧
    (∃ round finish, rounds.getLast? = some round ∧ d.Ended round finish w) ∧
    ∀ results, Driver.Gives rounds results →
      record.attempts = Driver.decisive results d.workflow.settings.maxAttempts ∧
      verdict = .ofEnding (results record.attempts)
  /-- A node is cut off in the attempt or in the wait to which it has come. -/
  cut : ¬verdict.Decides →
    d.Breaks 1 d.workflow.settings.maxAttempts begun verdict w retries rounds record.attempts
  /-- Without an executor there is no attempt. -/
  unknown : d.executors node.type = none → rounds = [] ∧ retries = 0 ∧ record.attempts = 0 ∧
    verdict = .failed ("No executor registered for node type: " ++ node.type.name) ∧ w.now = begun
  /-- The log says of each retry when the attempt before has failed and how, if it
  keeps warnings. -/
  logs : ∃ lines, record.logs = lines.map (Line.entry d.workflow.settings) ∧
    d.Retries 1 (Line.retries lines) rounds ∧ (Line.retries lines).length =
      if (Logger.ofSettings d.workflow.settings.logging).keeps .warn then retries else 0

namespace Driver

variable {d : Driver} {node : Node} {asked run : Run} {begun last : Nat} {lines : List Line}
  {rounds : List Round} {verdict : Verdict} {w : World}

/-- The log of a node, with its last line. -/
theorem Retries.logs (h : d.Retries 1 (Line.retries lines) rounds) (note : Note) (now : Nat) :
    let log := Logger.ofSettings d.workflow.settings.logging
    ∃ kept : List Line,
      ((log.writeLines d.workflow.settings lines).write now note).entries =
        kept.map (Line.entry d.workflow.settings) ∧
      d.Retries 1 (Line.retries kept) rounds ∧ (Line.retries kept).length =
        if log.keeps .warn then (Line.retries lines).length else 0 := by
  intro log
  have hwrite : (log.writeLines d.workflow.settings lines).write now note =
      log.writeLines d.workflow.settings (lines ++ [.own now note]) :=
    (log.writeLines_append _ lines [.own now note]).symm
  have hlast : Line.retries (lines ++ [.own now note]) = Line.retries lines := by
    rw [Line.retries_append]
    exact List.append_nil _
  refine ⟨_, by rw [hwrite, Logger.writeLines_entries]; rfl, ?_⟩
  rw [Line.retries_kept, hlast]
  split
  · exact ⟨h, rfl⟩
  · exact ⟨.nil, rfl⟩

theorem Settles.reports (h : d.Settles node asked begun lines rounds last verdict w)
    (vars : Json.Fields) :
    ((NodeRun.start node vars begun).close d.workflow.settings node w.now last
      ((Logger.ofSettings d.workflow.settings.logging).writeLines d.workflow.settings lines)
      verdict).Reports d node asked begun rounds (Line.retries lines).length verdict w := by
  have hpos := d.workflow.settings.maxAttempts_pos
  have hmost : 1 + (d.workflow.settings.maxAttempts - 1) = d.workflow.settings.maxAttempts := by
    omega
  cases h with
  | @pursued executor _ _ _ _ _ hexecutor hpursues =>
    exact {
      nodeId := NodeRun.close_nodeId ..
      status := NodeRun.close_status ..
      output := NodeRun.close_output ..
      error := NodeRun.close_error ..
      ended := NodeRun.close_completedAt ..
      called := fun round hround => ⟨executor, hexecutor, hpursues.begins round hround⟩
      first := hpursues.head
      leads := fun i round next hround hnext =>
        Nat.add_comm 1 i ▸ hpursues.leads i round next hround hnext
      decided := fun hd _ => by
        obtain ⟨round, finish, hround, hlength, hended, -, -, hretries⟩ := hpursues.decided hd
        have hlast : rounds.length = last := Nat.succ.inj hlength
        refine ⟨hlast, hretries.trans (by rw [hlast]; rfl), ⟨round, finish, hround, hended⟩, ?_⟩
        exact fun results hgives => (hpursues.decisive rfl hmost hd hgives).2
      cut := fun hd => hmost ▸ hpursues.breaks hd
      unknown := fun hnone => by cases hexecutor.symm.trans hnone
      logs := hpursues.retried.logs _ _ }
  | unknown hnone hnow =>
    exact {
      nodeId := NodeRun.close_nodeId ..
      status := NodeRun.close_status ..
      output := NodeRun.close_output ..
      error := NodeRun.close_error ..
      ended := NodeRun.close_completedAt ..
      called := by simp
      first := by simp
      leads := by simp
      decided := fun _ hsome => by
        rw [hnone] at hsome
        cases hsome
      cut := fun hd => absurd trivial hd
      unknown := fun _ => ⟨rfl, rfl, rfl, rfl, hnow⟩
      logs := Retries.nil.logs _ _ }

/-- A node that nothing cuts off is decided. -/
theorem Breaks.not_live {number most now retries : Nat}
    (h : d.Breaks number most now verdict w retries rounds last) : ¬d.Live w := by
  have hcuts : d.Cuts w verdict := by
    cases h with
    | ahead _ _ hoff => exact hoff.cuts
    | amid _ _ hoff => exact hoff.cuts
    | between _ _ _ _ _ hoff => exact hoff.cuts
  intro hlive
  cases verdict with
  | completed output => exact hcuts
  | failed error => exact hcuts
  | cancelled => cases hlive.unfired.symm.trans hcuts
  | timedOut => cases hlive.inTime.symm.trans hcuts.2

variable {c : Company World} (hc : c.Exact) {always : World → Prop} (hg : d.Guards c always)
  (hsave : ∀ s run, always s → always (s.saveRun run).2) {s : World} (hs : always s)

include hc hg hsave hs

/-- Handing a record in takes no time. -/
theorem holds_save_exact (run : Run) :
    (save run).Holds c always (fun run' t => run'.Echoes run ∧ t.now = s.now) s := by
  intro s₁ ho
  have hs₁ := hg.others _ _ _ d.stands_lock hs ho
  refine ⟨hs₁, hsave s₁ run hs₁, Store.save_echoes s₁.store run, hc.lock s s₁ ho⟩

/-- **Through a node**: the run has one more record, which reports the attempts at
the node, and ends when they have come to a verdict. -/
theorem holds_tellNode_exact (node : Node) (run : Run) :
    (d.tellNode node run).Holds c always
      (fun ((run', verdict), trials) t => ∃ asked record rounds retries w,
        asked.Echoes (run.addNode (.start node run.context.vars s.now)) ∧
        run'.nodes = run.nodes ++ [record] ∧
        record.Reports d node asked s.now rounds retries verdict w ∧
        List.Forall₂ Trial.Shows trials rounds ∧ t.now = w.now ∧ always w) s := by
  refine holds_bind.mpr (holds_read hs (holds_bind.mpr ?_))
  refine (holds_save_exact hc hg hsave hs _).and_now.mono ?_
  rintro asked s₁ ⟨⟨hasked, hnow⟩, hs₁⟩
  refine holds_bind.mpr ((holds_tellTries_exact hc hg node asked hs₁).and_now.mono ?_)
  rintro ⟨⟨last, log, verdict⟩, trials⟩ w ⟨⟨lines, rounds, hlog, hshows, hsettles⟩, hw⟩
  rw [hnow] at hsettles
  refine holds_bind.mpr (holds_read hw (holds_bind.mpr ?_))
  refine (holds_save_exact hc hg hsave hw _).and_now.mono ?_
  rintro run' t ⟨⟨hsaved, hnow'⟩, ht⟩
  have hreports := hsettles.reports run.context.vars
  rw [← hlog] at hreports
  refine holds_done ht ⟨asked, _, rounds, _, w, hasked, ?_, hreports, hshows, hnow', hw⟩
  exact (hasked.through hsaved).nodes

end Driver

end Automation
