/-
Automation.Proofs.Engine.ClockTheorems — the clock of a schedule.

`Schedule.Serves` lets the clock jump at any time. `Attends` is what
`attend` does, step for step: the clock jumps only when nobody can take a
turn, and to the next instant that anybody waits for. Everybody is at a wait
then (`Going.waits`), so nobody's wait is passed over (`le_of_next?`). For the
request the jobs and the clock are company (`Attends.course_crowd`), which is
punctual (`Attends.course`).
-/
import Automation.Proofs.Engine.CommandTheorems
import Automation.Proofs.Engine.PunctualTheorems

namespace Automation

open Process

/-! ## Stops -/

/-- A process that does not end in a turn comes to a lock or to a wait. -/
theorem Outcome.Stands.atStop {σ α : Type} {signals : σ → Signals} {access : Access} {s : σ}
    {outcome : Outcome σ α} (h : outcome.Stands signals access s)
    (hgoes : ∀ a, outcome ≠ .ended a) : outcome.rest.AtStop := by
  cases h with
  | ended a => exact absurd rfl (hgoes a)
  | waits _ => trivial
  | keeps _ => trivial
  | yields => trivial
  | lines _ => trivial

theorem Process.AtLock.atStop {σ α : Type} : ∀ {p : Process σ α}, p.AtLock → p.AtStop
  | locked _ _, _ => trivial

/-! ## Company -/

/-- What jobs do on the runs of some ids beside a process, and the clock: at a
wait for nothing it stands still. -/
structure World.Crowds (P : String → Prop) (place : Option Wait) (w w' : World) : Prop
    extends w.Beside place w' where
  passes : w.Passes P w'
  nothing : ∀ wait, place = some wait → wait.due = .nothing → w'.now = w.now

/-- The jobs of some ids, and the clock. -/
def crowd (P : String → Prop) : Company World where
  signals := World.signals
  others := World.Crowds P
  others_refl _ _ := ⟨.rfl, .rfl, fun _ _ _ => rfl⟩
  others_trans _ _ _ _ h h' := ⟨h.toBeside.trans h'.toBeside, h.passes.trans h'.passes,
    fun wait hp hdue => (h'.nothing wait hp hdue).trans (h.nothing wait hp hdue)⟩

/-- That is punctual company. -/
theorem Process.Course.punctual {α : Type} {P : String → Prop} {p q : Process World α}
    {s t : World} (h : Course (crowd P) p s q t) : Course Automation.punctual p s q t := by
  have hsignals : Automation.punctual.signals = (crowd P).signals := rfl
  exact h.mono hsignals fun _ _ _ ho => ho.toBeside

namespace Schedule

variable {α : Type} {s s₀ t : Schedule} {p : Process World α} {q request : Outcome World α}

/-! ## Steps -/

/-- What serving a request leads to step for step: how the request stands, and
the schedule then. -/
inductive Attends (s₀ : Schedule) (p : Process World α) : Outcome World α → Schedule → Prop where
  | start : Attends s₀ p (.yields p false) s₀
  | request {q : Outcome World α} {t : Schedule} :
      Attends s₀ p q t → t.canGoOn q = true → (∀ a, (t.turn q.rest).1 ≠ .ended a) →
      Attends s₀ p (t.turn q.rest).1 (t.turn q.rest).2
  | job {q : Outcome World α} {t : Schedule} {job : Job} {ready : List Job} :
      Attends s₀ p q t → q.rest.AtStop → t.ready = job :: ready →
      Attends s₀ p q ({ t with ready }.take job)
  | round {q : Outcome World α} {t : Schedule} :
      Attends s₀ p q t → Attends s₀ p q { t with ready := t.ready ++ t.tired, tired := [] }
  | clock {q : Outcome World α} {t : Schedule} {now : Nat} :
      Attends s₀ p q t → t.canGoOn q = false → t.ready = [] → t.tired = [] →
      t.next? q.rest = some now → Attends s₀ p q (t.setClock now)

/-- How attending a request comes out. -/
def Attended (s₀ : Schedule) (p : Process World α) : Option α × Schedule → Prop
  | (some a, t) => ∃ q u, Attends s₀ p q u ∧ u.canGoOn q = true ∧ u.turn q.rest = (.ended a, t)
  | (none, t) => ∃ q, Attends s₀ p q t

theorem Attends.takeTurns (hstop : q.rest.AtStop) (n : Nat) : ∀ {t : Schedule},
    Attends s₀ p q t → Attends s₀ p q (Schedule.takeTurns n t) := by
  induction n with
  | zero => exact fun h => h
  | succ n ih =>
    intro t h
    unfold Schedule.takeTurns
    cases hready : t.ready with
    | nil => exact h
    | cons job ready => exact ih (h.job hstop hready)

theorem Going.atStop (hg : s.Going request) (hcan : s.canGoOn request = false) :
    request.rest.AtStop := by
  cases request with
  | ended a => cases hcan
  | yields p locks => cases hcan
  | waits p => exact atStop_of_wait? hg.claims.1
  | lines p => exact hg.claims.1.atStop

section

variable (ha : Asks s₀ p)

include ha

/-- Everybody stands where he belongs at every step. -/
theorem Attends.serving (hidle : s₀.Idle) (h : Attends s₀ p q t) :
    Serving s₀ p t q ∧ ∀ a, q ≠ .ended a := by
  induction h with
  | start => exact ⟨⟨.start, hidle.going_yields p⟩, by simp⟩
  | request _ hcan hgoes ih => exact ⟨(ih.1.turn ha hcan ih.2).2.2 hgoes, hgoes⟩
  | job _ _ hready ih => exact ⟨(ih.1.take ha hready).1, ih.2⟩
  | round _ ih => exact ⟨⟨ih.1.serves.round, ih.1.going.again⟩, ih.2⟩
  | clock _ _ _ _ _ ih => exact ⟨⟨ih.1.serves.clock _, ih.1.going.setClock _⟩, ih.2⟩

/-- **`attend` goes step for step.** -/
theorem attend_attends (hidle : s₀.Idle) (fuel : Nat) :
    ∀ {s : Schedule} {request : Outcome World α}, Attends s₀ p request s → s.tired = [] →
      Attended s₀ p (attend fuel request s) := by
  induction fuel with
  | zero => exact fun h _ => ⟨_, h⟩
  | succ fuel ih =>
    intro s request h htired
    obtain ⟨hserving, -⟩ := h.serving ha hidle
    have hround : ∀ {q : Outcome World α} {t : Schedule}, Attends s₀ p q t → q.rest.AtStop →
        Attended s₀ p (attend fuel q t.round) :=
      fun h hstop => ih (h.takeTurns hstop turns).round rfl
    unfold attend
    split
    · next hcan =>
      have hstands := turn_stands World.signals request.rest s.left (s.access s.locks) s.world
      rw [← turn_fst] at hstands
      have hgoes := h.request hcan
      generalize hturn : s.turn request.rest = turn at hstands hgoes
      obtain ⟨outcome, t⟩ := turn
      rcases outcome.ended_or_goes with ⟨a, rfl⟩ | hne
      · exact ⟨request, s, h, hcan, hturn⟩
      · have hnext := hround (hgoes hne) (hstands.atStop hne)
        cases outcome with
        | ended a => exact absurd rfl (hne a)
        | waits r => exact hnext
        | yields r locks => exact hnext
        | lines r => exact hnext
    · next hcan =>
      rw [Bool.not_eq_true] at hcan
      split
      · next hready =>
        rw [List.isEmpty_iff] at hready
        cases hinstant : s.next? request.rest with
        | none => exact ⟨_, h⟩
        | some now => exact ih (h.clock hcan hready htired hinstant) htired
      · exact hround h (hserving.going.atStop hcan)

theorem serve_attends (hidle : s₀.Idle) (stops : Nat) : Attended s₀ p (s₀.serve stops p) :=
  attend_attends ha hidle _ .start hidle.tired

end

/-! ## The clock -/

/-- The clock does not jump past an instant that is waited for. -/
theorem le_of_next? {p : Process World α} {now : Nat} (h : s.next? p = some now) :
    (∀ wait t, p.wait? = some wait → wait.instant? = some t → now ≤ t) ∧
      ∀ job ∈ s.waiting, ∀ wait t, job.process.wait? = some wait → wait.instant? = some t →
        now ≤ t := by
  have hle := (List.min?_eq_some_iff.mp h).2
  have hinstant : ∀ {β : Type} {p : Process World β} {wait t}, p.wait? = some wait →
      wait.instant? = some t → p.wait?.bind (·.instant?) = some t := by
    intro β p wait t hwait ht
    rw [hwait, Option.bind_some, ht]
  constructor
  · intro wait t hwait ht
    refine hle t (List.mem_filterMap.mpr ⟨some t, ?_, rfl⟩)
    exact List.mem_cons.mpr (Or.inl (hinstant hwait ht).symm)
  · intro job hj wait t hwait ht
    refine hle t (List.mem_filterMap.mpr ⟨some t, List.mem_cons_of_mem _ ?_, rfl⟩)
    exact List.mem_map.mpr ⟨job, hj, hinstant hwait ht⟩

/-- A job that takes a turn does not move the clock. -/
theorem take_now {job : Job} (h : job.Tame) : (s.take job).world.now = s.world.now := by
  obtain ⟨outcome, left', v, ht, -, htake⟩ := s.exists_take job
  have hwrites := h.turn (s.access job.locks) s.world
  rw [show job.process = job.unlocked.process from rfl, ht] at hwrites
  rw [htake, ← hwrites.still]
  cases outcome <;> rfl

/-! ## Company for a request -/

/-- What a job does is what others may do beside a process. -/
theorem crowds_take {job : Job} {P : String → Prop} (h : job.Tame) (hid : P job.id)
    (place : Option Wait) : World.Crowds P place s.world (s.take job).world where
  toBeside := .of_now (.of_fired (passes_take h).fired) (take_now h)
  passes := relates_take (fun _ => .rfl) (fun _ _ _ => .trans) (h.passes hid)
  nothing _ _ _ := take_now h

/-- A wait for nothing is over. -/
theorem isOver_of_nothing {p : Process World α} {w : World} {wait : Wait}
    (h : p.wait? = some wait) (hdue : wait.due = .nothing) : isOver w p = true := by
  refine isOver_iff.mpr ⟨wait, h, Wait.isSome_wake?.mpr (Or.inr (Or.inr ?_))⟩
  rw [hdue]
  rfl

/-- When the clock jumps, a job is at a wait that takes time, and the clock does not
run past it. -/
theorem Going.beside_clock {now : Nat} (hg : s.Going request) (hcan : s.canGoOn request = false)
    (hready : s.ready = []) (htired : s.tired = []) (hnext : s.next? request.rest = some now)
    {job : Job} (hj : job ∈ s.jobs) : ∃ wait, job.process.wait? = some wait ∧
      wait.due ≠ .nothing ∧ s.world.Beside (some wait) (s.setClock now).world := by
  obtain ⟨hline, -⟩ := hg.waits hcan hready htired
  obtain ⟨job', hj', rfl⟩ := exists_waiting_of_mem hready htired hline hj
  obtain ⟨wait, hwait⟩ := Option.isSome_iff_exists.mp (hg.poised.waiting job' hj').2
  refine ⟨wait, hwait, fun hdue => ?_, .setNow (fun t ht => ?_) s.world⟩
  · have hasleep := hg.asleep job' hj'
    cases (isOver_of_nothing hwait hdue).symm.trans hasleep
  · exact (le_of_next? hnext).2 job' hj' wait t hwait ht

/-- **For a request the jobs are company**, and the clock, which does not run
past what the request waits for. -/
theorem Attends.course_crowd {P : String → Prop} (ha : Asks s₀ p) (hidle : s₀.Idle)
    (hP : ∀ job ∈ s₀.jobs, P job.id) (h : Attends s₀ p q t) :
    Course (crowd P) p s₀.world q.rest t.world := by
  induction h with
  | start => exact .start
  | @request q t hattends _ _ ih =>
    rw [turn_fst, turn_world]
    exact ih.turn t.left (t.access t.locks)
  | @job q t job ready hattends hstop hready ih =>
    have hserves := (hattends.serving ha hidle).1.serves
    have htame : job.Tame := tame_of_mem (ha.tame_serves hserves) (by simp [hready])
    have hids := hserves.each (C := fun job => P job.id) (fun _ _ _ h => h) hP
    rw [jobs_cons hready] at hids
    have hid : P job.id := hids job.unlocked (Multiset.mem_cons_self _ _)
    exact ih.others hstop (crowds_take (s := { t with ready }) htame hid _)
  | round _ ih => exact ih
  | @clock q t now hattends hcan hready htired hnext ih =>
    obtain ⟨hserving, -⟩ := hattends.serving ha hidle
    obtain ⟨-, r, rfl, hwaits⟩ := hserving.going.waits hcan hready htired
    obtain ⟨wait, hwait⟩ := Option.isSome_iff_exists.mp hwaits
    refine ih.others (atStop_of_wait? hwaits) ?_
    show World.Crowds P r.wait? t.world { t.world with now := max t.world.now now }
    rw [hwait]
    refine ⟨.setNow (fun i hi => (le_of_next? hnext).1 wait i hwait hi) t.world, .setNow _ _, ?_⟩
    rintro _ ⟨⟩ hdue
    have hover := isOver_of_nothing (w := t.world) hwait hdue
    cases hover.symm.trans hcan

/-- The same of a request that is answered. -/
theorem Attended.course_crowd {P : String → Prop} (ha : Asks s₀ p) (hidle : s₀.Idle)
    (hP : ∀ job ∈ s₀.jobs, P job.id) {a : α} (h : Attended s₀ p (some a, t)) :
    Course (crowd P) p s₀.world (.done a) t.world := by
  obtain ⟨q, u, hattends, -, hturn⟩ := h
  have hcourse := (hattends.course_crowd ha hidle hP).turn u.left (u.access u.locks)
  obtain ⟨houtcome, hworld, -⟩ := turn_eq hturn
  rw [show (crowd P).signals = World.signals from rfl, houtcome, hworld] at hcourse
  exact hcourse

theorem Attended.course (ha : Asks s₀ p) (hidle : s₀.Idle) {a : α} (h : Attended s₀ p (some a, t)) :
    Course punctual p s₀.world (.done a) t.world :=
  (h.course_crowd (P := fun _ => True) ha hidle fun _ _ => trivial).punctual

end Schedule

end Automation
