/-
Automation.Proofs.Engine.RoundTheorems — rounds of attempts, to the
millisecond.

A `Round` is a trial together with the states in which it begins and ends.
`Pursues` says how one round leads to the next: a failure with attempts
left is noted and followed, after exactly the delay of the policy, by the
next attempt; the token and the deadline cut off the attempt or the wait
that they find, and nothing else does.

`holds_tellTries_exact` says that the driver goes on like this in company
that is `Exact`. Its clock stands still unless the driver waits for an
instant, and then it does not run past it. A `punctual` company is not
enough: its clock may run on while the driver waits for nothing, which it
does before every attempt.
-/
import Automation.Proofs.Engine.PunctualTheorems

namespace Automation

open Process

/-! ## Exact company -/

/-- The clock stands still while the process stands at a lock or waits for
nothing, and does not run past the instant that it waits for. -/
structure Company.Exact (c : Company World) : Prop extends c.Punctual where
  signals : c.signals = World.signals
  tokens : ∀ place s s', c.others place s s' → s.TokensStay s'
  forward : ∀ place s s', c.others place s s' → s.now ≤ s'.now
  nothing : ∀ wait s s', c.others (some wait) s s' → wait.due = .nothing → s'.now = s.now

/-- A driver that is left to itself guards nothing. -/
theorem Company.Exact.guards {c : Company World} (hc : c.Exact) (d : Driver) :
    d.Guards c fun _ => True :=
  ⟨hc.signals, fun _ _ _ _ _ _ => trivial, fun _ _ _ => trivial⟩

/-! ## Rounds and lines -/

/-- An attempt at a node that was begun. -/
structure Round where
  /-- The state in which the executor is called. -/
  before : World
  /-- How the attempt was to go on. -/
  course : Attempt
  /-- The state in which it came to its end; there is none if it was cut
  off. -/
  after : Option World

/-- The trial is this round. -/
structure Trial.Shows (trial : Trial) (round : Round) : Prop where
  began : trial.began = round.before.now
  course : trial.course = round.course

/-- A line in the log of a node. -/
inductive Line where
  /-- The line was written for an attempt, or when the node came to its end. -/
  | own (now : Nat) (note : Note)
  /-- The attempt of this number has failed, and another one is to follow. -/
  | retry (now number : Nat) (error : String)

namespace Line

/-- When the line is written. -/
def now : Line → Nat
  | own now _ => now
  | retry now _ _ => now

/-- What the line says. -/
def note (settings : Settings) : Line → Note
  | own _ note => note
  | retry _ number error => Driver.retryNote settings number error

/-- Whether the line says that another attempt is to follow. -/
def isRetry : Line → Bool
  | own _ _ => false
  | retry _ _ _ => true

/-- The lines of notes that are written at one time. -/
def owns (now : Nat) (notes : List Note) : List Line :=
  notes.map (own now)

end Line

/-- Write lines one after the other. -/
def Logger.writeLines (log : Logger) (settings : Settings) (lines : List Line) : Logger :=
  lines.foldl (fun log line => log.write line.now (line.note settings)) log

theorem Logger.writeLines_append (log : Logger) (settings : Settings) (lines more : List Line) :
    log.writeLines settings (lines ++ more) =
      (log.writeLines settings lines).writeLines settings more :=
  List.foldl_append

theorem Logger.writeLines_owns (log : Logger) (settings : Settings) (now : Nat)
    (notes : List Note) :
    log.writeLines settings (Line.owns now notes) = log.writeAll now notes := by
  unfold writeLines writeAll Line.owns
  rw [List.foldl_map]
  rfl

/-! ## How rounds follow each other -/

namespace Driver

variable (d : Driver)

/-- Neither was the run cancelled nor is its time up. -/
structure Live (w : World) : Prop where
  unfired : w.store.isFired d.token = false
  inTime : d.isUp w.now = false

/-- What cuts a node off with this verdict. -/
def Cuts (w : World) : Verdict → Prop
  | .cancelled => w.store.isFired d.token = true
  | .timedOut => w.store.isFired d.token = false ∧ d.isUp w.now = true
  | _ => False

/-- The node is cut off since this instant, and before so many milliseconds
have passed if there is a number. -/
structure CutOff (since : Nat) (most : Option Nat) (verdict : Verdict) (w : World) : Prop where
  cuts : d.Cuts w verdict
  notBefore : since ≤ w.now
  notAfter : ∀ ms, most = some ms → w.now ≤ since + ms
  /-- It is cut off by the deadline when that comes. -/
  onTime : d.isUp since = false → verdict = .timedOut → d.deadline = some w.now

/-- How long an attempt lasts that is to end in this way. -/
def span (finish : Finish) : Nat :=
  finish.lasts.getD 0

section

variable (executor : Executor) (node : Node) (run : Run)

/-- The executor is called in this state. -/
structure Begins (before : World) (course : Attempt) : Prop where
  live : d.Live before
  called : course =
    (executor node ⟨run.context, run.id, run.workflowId, before.now⟩ before.services).1

/-- One attempt, from this instant to the state in which there is a verdict. -/
inductive Attempts (now : Nat) : List Line → List Round → Verdict → World → Prop where
  /-- The node is cut off before the executor is called. -/
  | skipped {verdict : Verdict} {w : World} : d.CutOff now (some 0) verdict w →
      Attempts now [] [] verdict w
  /-- It is cut off while the attempt lasts. -/
  | cut {before : World} {course : Attempt} {verdict : Verdict} {w : World} :
      d.Begins executor node run before course → before.now = now →
      d.CutOff now (course.finish.map span) verdict w →
      Attempts now (Line.owns now course.opening) [⟨before, course, none⟩] verdict w
  /-- The attempt comes to its end. -/
  | ended {before : World} {course : Attempt} {finish : Finish} {w : World} :
      d.Begins executor node run before course → before.now = now →
      course.finish = some finish → d.Live w → w.now = now + span finish →
      Attempts now (Line.owns now course.opening ++ Line.owns w.now finish.closing)
        [⟨before, course, some w⟩] (.ofEnding finish.ending) w

/-- **How a node is pursued**, from the attempt of a number on, with so many
more attempts left after it, to the attempt that is the last. -/
inductive Pursues : (more number now : Nat) → List Line → List Round → (last : Nat) →
    Verdict → World → Prop where
  /-- There is no failure, or no other attempt after it. -/
  | last {more number now : Nat} {lines : List Line} {rounds : List Round}
      {verdict : Verdict} {w : World} : d.Attempts executor node run now lines rounds verdict w →
      (more = 0 ∨ ∀ error, verdict ≠ .failed error) →
      Pursues more number now lines rounds number verdict w
  /-- The node is cut off in the wait after a failure. -/
  | waiting {more number now : Nat} {lines : List Line} {rounds : List Round}
      {error : String} {verdict : Verdict} {w₁ w : World} :
      d.Attempts executor node run now lines rounds (.failed error) w₁ →
      d.CutOff w₁.now (some (d.workflow.settings.retryPolicy.delay number)) verdict w →
      Pursues (more + 1) number now (lines ++ [.retry w₁.now number error]) rounds number verdict w
  /-- After the wait there is another attempt. -/
  | again {more number now : Nat} {lines others : List Line}
      {rounds behind : List Round} {error : String} {w₁ w : World} {last : Nat}
      {verdict : Verdict} : d.Attempts executor node run now lines rounds (.failed error) w₁ →
      Pursues more (number + 1) (w₁.now + d.workflow.settings.retryPolicy.delay number)
        others behind last verdict w →
      Pursues (more + 1) number now (lines ++ .retry w₁.now number error :: others)
        (rounds ++ behind) last verdict w

/-- How a node comes to a verdict, from this instant on. -/
inductive Settles (node : Node) (run : Run) (now : Nat) : List Line → List Round → (last : Nat) →
    Verdict → World → Prop where
  | pursued {executor : Executor} {lines : List Line} {rounds : List Round} {last : Nat}
      {verdict : Verdict} {w : World} : d.executors node.type = some executor →
      d.Pursues executor node run (d.workflow.settings.maxAttempts - 1) 1 now lines rounds last
        verdict w → Settles node run now lines rounds last verdict w
  /-- Without an executor, there is nothing to attempt. -/
  | unknown {w : World} : d.executors node.type = none → w.now = now →
      Settles node run now [] [] 0
        (.failed ("No executor registered for node type: " ++ node.type.name)) w

end

/-! ## Waits -/

/-- What a wait of so many milliseconds comes to. -/
inductive Awaits (now : Nat) (most : Option Nat) : Wake → World → Prop where
  | elapsed {ms : Nat} {w : World} : most = some ms → d.Live w → w.now = now + ms →
      Awaits now most .elapsed w
  | cut {wake : Wake} {w : World} : wake ≠ .elapsed → d.CutOff now most (cutOff wake) w →
      Awaits now most wake w

variable {d}

/-- The instant of a wait is not later than what is waited for. -/
theorem instant?_le (token : Nat) (deadline : Option Nat) (t : Nat) :
    ∃ i, Wait.instant? ⟨some token, deadline, .instant t⟩ = some i ∧ i ≤ t := by
  cases deadline with
  | none => exact ⟨t, rfl, Nat.le_refl t⟩
  | some deadline => exact ⟨min deadline t, rfl, Nat.min_le_right _ _⟩

variable {c : Company World} (hc : c.Exact)

include hc

section

variable {due : Due} {s s₁ : World} {wake : Wake}
  (ho : c.others (some ⟨some d.token, d.deadline, due⟩) s s₁)
  (hw : Wait.wake? ⟨some d.token, d.deadline, due⟩ (c.signals s₁) = some wake)

include hw

theorem unfired_of_wake? (hwake : wake ≠ .cancelled) : s₁.store.isFired d.token = false := by
  rw [hc.signals] at hw
  exact Bool.eq_false_iff.mpr ((wake_cancelled_iff hw).not.mp hwake)

/-- A wait that is not cut off leaves the driver free to go on. -/
theorem live_of_wake? (hwake : wake = .elapsed) : d.Live s₁ ∧ due.hasCome s₁.signals = true := by
  subst hwake
  have hunfired := unfired_of_wake? hc hw (by simp)
  rw [hc.signals] at hw
  obtain ⟨hup, hcome⟩ := wakes_of_wake? hw
  exact ⟨⟨hunfired, hup⟩, hcome⟩

include ho

/-- What cuts a wait off. -/
theorem cutOff_of_wake? (hwake : wake ≠ .elapsed) {most : Option Nat}
    (hmost : ∀ ms, most = some ms → s₁.now ≤ s.now + ms) :
    d.CutOff s.now most (cutOff wake) s₁ := by
  have hunfired := unfired_of_wake? hc hw
  rw [hc.signals] at hw
  have hwakes := wakes_of_wake? hw
  cases wake with
  | elapsed => exact absurd rfl hwake
  | cancelled => exact ⟨hwakes, hc.forward _ _ _ ho, hmost, fun _ h => by cases h⟩
  | deadline =>
    have hup : d.isUp s₁.now = true := hwakes
    refine ⟨⟨hunfired (by simp), hup⟩, hc.forward _ _ _ ho, hmost, fun hbefore _ => ?_⟩
    cases hd : d.deadline with
    | none => simp [isUp, hd] at hup
    | some deadline =>
      -- the clock has not run past the deadline, and it has come
      have hset : (⟨some d.token, d.deadline, due⟩ : Wait).deadline = some deadline := hd
      obtain ⟨t, ht, hle⟩ := Wait.instant?_of_deadline hset
      have hreach := hc.wait _ _ _ _ ho ht
      have hlt := (not_isUp_iff hd).mp hbefore
      have hge := (isUp_iff hd).mp hup
      exact congrArg some (by omega)

end

variable {always : World → Prop} (hg : d.Guards c always)

section

variable {s : World} (hs : always s)

include hg hs

/-- Nothing is waited for before an attempt. -/
theorem holds_pause_nothing :
    (d.pause .nothing).Holds c always (fun wake w => d.Awaits s.now (some 0) wake w) s := by
  intro s₁ ho
  have hs₁ := hg.others _ _ _ (d.stands_wait _) hs ho
  refine ⟨hs₁, fun wake hw => ⟨hs₁, ?_⟩⟩
  have hnow : s₁.now = s.now := hc.nothing _ _ _ ho rfl
  by_cases hwake : wake = .elapsed
  · subst hwake
    exact .elapsed rfl (live_of_wake? hc hw rfl).1 hnow
  · refine .cut hwake (cutOff_of_wake? hc ho hw hwake ?_)
    rintro _ ⟨⟩
    exact Nat.le_of_eq hnow

/-- An attempt that hangs can only be cut off. -/
theorem holds_pause_never :
    (d.pause .never).Holds c always (fun wake w => d.Awaits s.now none wake w) s := by
  intro s₁ ho
  have hs₁ := hg.others _ _ _ (d.stands_wait _) hs ho
  refine ⟨hs₁, fun wake hw => ⟨hs₁, ?_⟩⟩
  have hwake : wake ≠ .elapsed := by
    intro hwake
    cases (live_of_wake? hc hw hwake).2
  exact .cut hwake (cutOff_of_wake? hc ho hw hwake (by simp))

/-- **A wait of so many milliseconds takes so many**, unless it is cut off. -/
theorem holds_sleep_exact (ms : Nat) :
    (d.sleep ms).Holds c always (fun wake w => d.Awaits s.now (some ms) wake w) s := by
  refine holds_bind.mpr (holds_read hs ?_)
  intro s₁ ho
  have hs₁ := hg.others _ _ _ (d.stands_wait _) hs ho
  refine ⟨hs₁, fun wake hw => ⟨hs₁, ?_⟩⟩
  obtain ⟨i, hi, hle⟩ := instant?_le d.token d.deadline (s.now + ms)
  have hreach := hc.wait _ _ _ _ ho hi
  have hmost : s₁.now ≤ s.now + ms := by omega
  by_cases hwake : wake = .elapsed
  · subst hwake
    obtain ⟨hlive, hcome⟩ := live_of_wake? hc hw rfl
    have hpast : s.now + ms ≤ s₁.now := of_decide_eq_true hcome
    exact .elapsed rfl hlive (Nat.le_antisymm hmost hpast)
  · refine .cut hwake (cutOff_of_wake? hc ho hw hwake ?_)
    rintro _ ⟨⟩
    exact hmost

theorem holds_lasts_exact (finish : Finish) (hlive : d.Live s) :
    (d.lasts finish).Holds c always
      (fun wake w => d.Awaits s.now (some (span finish)) wake w) s := by
  unfold lasts span
  cases finish.lasts with
  | none => exact holds_done hs (.elapsed rfl hlive rfl)
  | some ms => exact holds_sleep_exact hc hg hs ms

end

/-! ## Attempts -/

include hg

/-- The end of an attempt that has begun. -/
theorem holds_awaitEnd_exact {executor : Executor} {node : Node} {run : Run} {before : World}
    {course : Attempt} (hbegins : d.Begins executor node run before course) (services : Services)
    (hs : always { before with services }) (log : Logger) :
    (d.awaitEnd (log.writeAll before.now course.opening) course.finish).Holds c always
      (fun (log', verdict) w => ∃ lines after, log' = log.writeLines d.workflow.settings lines ∧
        d.Attempts executor node run before.now lines [⟨before, course, after⟩] verdict w)
      { before with services } := by
  have hlive : d.Live { before with services } := ⟨hbegins.live.unfired, hbegins.live.inTime⟩
  have hopening := log.writeLines_owns d.workflow.settings before.now course.opening
  have hcut : ∀ {wake w}, wake ≠ .elapsed →
      d.CutOff before.now (course.finish.map span) (cutOff wake) w → ∃ lines after,
        log.writeAll before.now course.opening = log.writeLines d.workflow.settings lines ∧
        d.Attempts executor node run before.now lines [⟨before, course, after⟩] (cutOff wake) w :=
    fun _ hcut => ⟨_, none, hopening.symm, .cut hbegins rfl hcut⟩
  cases hfinish : course.finish with
  | none =>
    rw [hfinish] at hcut
    refine holds_bind.mpr ((holds_pause_never hc hg hs).and_now.mono ?_)
    rintro wake w ⟨⟨⟨⟩, -, -⟩ | ⟨hwake, hoff⟩, hs'⟩
    exact holds_done hs' (hcut hwake hoff)
  | some finish =>
    rw [hfinish] at hcut
    rw [awaitEnd_some]
    refine holds_bind.mpr ((holds_lasts_exact hc hg hs finish hlive).and_now.mono ?_)
    rintro wake w ⟨⟨⟨⟩, hlive', hend⟩ | ⟨hwake, hoff⟩, hs'⟩
    · refine holds_bind.mpr (holds_read hs' (holds_done hs' ?_))
      refine ⟨_, some w, ?_, .ended hbegins rfl hfinish hlive' hend⟩
      rw [Logger.writeLines_append, Logger.writeLines_owns, Logger.writeLines_owns]
    · cases wake with
      | elapsed => exact absurd rfl hwake
      | cancelled => exact holds_done hs' (hcut hwake hoff)
      | deadline => exact holds_done hs' (hcut hwake hoff)

/-- One attempt. -/
theorem holds_tellAttempt_exact (executor : Executor) (node : Node) (run : Run) (log : Logger)
    {s : World} (hs : always s) :
    (d.tellAttempt executor node run log).Holds c always
      (fun ((log', verdict), trials) w => ∃ lines rounds,
        log' = log.writeLines d.workflow.settings lines ∧
        List.Forall₂ Trial.Shows trials rounds ∧
        d.Attempts executor node run s.now lines rounds verdict w) s := by
  refine holds_bind.mpr ((holds_pause_nothing hc hg hs).and_now.mono ?_)
  rintro wake s₁ ⟨⟨⟨⟩, hlive, hnow⟩ | ⟨hwake, hoff⟩, hs₁⟩
  · refine ⟨hs₁, ?_⟩
    change Holds c _ _ (d.awaitEnd _ _ >>= fun r => done ((r.1, r.2), [_])) _
    have hbegins : d.Begins executor node run s₁ _ := ⟨hlive, rfl⟩
    have hs₂ := hg.services s₁ (executor node ⟨run.context, run.id, run.workflowId, s₁.now⟩
      s₁.services).2 hs₁
    refine holds_bind.mpr ((holds_awaitEnd_exact hc hg hbegins _ hs₂ log).and_now.mono ?_)
    rintro ⟨log', verdict⟩ w ⟨⟨lines, after, hlog, hattempts⟩, hw⟩
    refine holds_done hw ⟨lines, [⟨s₁, _, after⟩], hlog, .cons ⟨rfl, rfl⟩ .nil, ?_⟩
    exact (hnow : s₁.now = s.now) ▸ hattempts
  · have hskip : d.Attempts executor node run s.now [] [] (cutOff wake) s₁ := .skipped hoff
    cases wake with
    | elapsed => exact absurd rfl hwake
    | cancelled => exact holds_done hs₁ ⟨[], [], rfl, .nil, hskip⟩
    | deadline => exact holds_done hs₁ ⟨[], [], rfl, .nil, hskip⟩

/-- **Attempts follow each other as they should.** -/
theorem holds_tellAttempts_exact (executor : Executor) (node : Node) (run : Run) (more : Nat) :
    ∀ (number : Nat) (log : Logger) {s : World}, always s →
      (d.tellAttempts executor node run more number log).Holds c always
        (fun ((last, log', verdict), trials) w => ∃ lines rounds,
          log' = log.writeLines d.workflow.settings lines ∧
          List.Forall₂ Trial.Shows trials rounds ∧
          d.Pursues executor node run more number s.now lines rounds last verdict w) s := by
  induction more with
  | zero =>
    intro number log s hs
    refine holds_bind.mpr ((holds_tellAttempt_exact hc hg executor node run log hs).and_now.mono ?_)
    rintro ⟨⟨log', verdict⟩, trials⟩ w ⟨⟨lines, rounds, hlog, hshows, hattempts⟩, hw⟩
    exact holds_done hw ⟨lines, rounds, hlog, hshows, .last hattempts (Or.inl rfl)⟩
  | succ more ih =>
    intro number log s hs
    refine holds_bind.mpr ((holds_tellAttempt_exact hc hg executor node run log hs).and_now.mono ?_)
    rintro ⟨⟨log', verdict⟩, trials⟩ w₁ ⟨⟨lines, rounds, hlog, hshows, hattempts⟩, hw₁⟩
    have hlast : (∀ error, verdict ≠ .failed error) → ∃ lines rounds,
        log' = log.writeLines d.workflow.settings lines ∧
        List.Forall₂ Trial.Shows trials rounds ∧
        d.Pursues executor node run (more + 1) number s.now lines rounds number verdict w₁ :=
      fun hv => ⟨lines, rounds, hlog, hshows, .last hattempts (Or.inr hv)⟩
    cases verdict with
    | completed output => exact holds_done hw₁ (hlast (by simp))
    | cancelled => exact holds_done hw₁ (hlast (by simp))
    | timedOut => exact holds_done hw₁ (hlast (by simp))
    | failed error =>
      refine holds_bind.mpr (holds_read hw₁ (holds_bind.mpr ?_))
      refine (holds_sleep_exact hc hg hw₁ _).and_now.mono ?_
      have hretry : (log'.write w₁.now (retryNote d.workflow.settings number error)) =
          log.writeLines d.workflow.settings (lines ++ [.retry w₁.now number error]) := by
        rw [hlog, Logger.writeLines_append]
        rfl
      rintro wake w₂ ⟨⟨⟨⟩, hlive, hnow⟩ | ⟨hwake, hoff⟩, hw₂⟩
      · refine holds_bind.mpr ((ih _ _ hw₂).and_now.mono ?_)
        rintro ⟨⟨last, log'', verdict⟩, others⟩ w ⟨⟨lines', behind, hlog', hshows', hpursues⟩, hw⟩
        rw [hnow] at hpursues
        refine holds_done hw ⟨_, _, ?_, List.rel_append hshows hshows', .again hattempts hpursues⟩
        rw [hlog', hretry, ← Logger.writeLines_append]
        simp
      · have hwaiting : d.Pursues executor node run (more + 1) number s.now _ rounds number
            (cutOff wake) w₂ := .waiting hattempts hoff
        cases wake with
        | elapsed => exact absurd rfl hwake
        | cancelled => exact holds_done hw₂ ⟨_, rounds, hretry, hshows, hwaiting⟩
        | deadline => exact holds_done hw₂ ⟨_, rounds, hretry, hshows, hwaiting⟩

/-- All attempts at a node. -/
theorem holds_tellTries_exact (node : Node) (run : Run) {s : World} (hs : always s) :
    (d.tellTries node run).Holds c always
      (fun ((last, log, verdict), trials) w => ∃ lines rounds,
        log = (Logger.ofSettings d.workflow.settings.logging).writeLines d.workflow.settings lines ∧
        List.Forall₂ Trial.Shows trials rounds ∧
        d.Settles node run s.now lines rounds last verdict w) s := by
  unfold tellTries
  cases hexecutor : d.executors node.type with
  | none => exact holds_done hs ⟨[], [], rfl, .nil, .unknown hexecutor rfl⟩
  | some executor =>
    refine (holds_tellAttempts_exact hc hg executor node run _ 1 _ hs).mono ?_
    rintro ⟨⟨last, log, verdict⟩, trials⟩ w ⟨lines, rounds, hlog, hshows, hpursues⟩
    exact ⟨lines, rounds, hlog, hshows, .pursued hexecutor hpursues⟩

end Driver

end Automation
