/-
Automation.Proofs.Engine.ProgressTheorems — turns of jobs bring a schedule
forward.

`Schedule.Going` says how the lock, the line and the waiting jobs stand
while a request is served: whoever waits has a reason to, and whoever
stands in line has somebody before him. The potential of the schedule and
the request (`Schedule.needs`) reckons three for every lock and every wait
that is to come, and a little more for who may come to the next one without
coming past it. A turn of a job keeps everybody where he belongs and takes
something of the potential (`Going.take`).
-/
import Automation.Proofs.Engine.JobTheorems

namespace Automation

open Process

/-! ## Waits that are over -/

namespace Wait

variable {wait : Wait} {signals signals' : Signals}

theorem isSome_wake? : (wait.wake? signals).isSome = true ↔
    wait.token.any signals.isFired = true ∨ wait.deadline.any (· ≤ signals.now) = true ∨
      wait.due.hasCome signals = true := by
  unfold wake?
  split
  · simp_all
  · split
    · simp_all
    · split <;> simp_all

/-- What has come stays. -/
theorem isSome_wake?_mono (hnow : signals.now ≤ signals'.now)
    (hfired : ∀ k, signals.isFired k = true → signals'.isFired k = true)
    (hended : ∀ id, wait.due = .run id → signals.hasEnded id = true → signals'.hasEnded id = true)
    (h : (wait.wake? signals).isSome = true) : (wait.wake? signals').isSome = true := by
  rw [isSome_wake?] at h ⊢
  refine h.imp ?_ (Or.imp ?_ ?_)
  · intro h
    rw [Option.any_eq_true] at h ⊢
    obtain ⟨k, hk, hfire⟩ := h
    exact ⟨k, hk, hfired k hfire⟩
  · intro h
    rw [Option.any_eq_true] at h ⊢
    obtain ⟨t, ht, hle⟩ := h
    exact ⟨t, ht, decide_eq_true (Nat.le_trans (of_decide_eq_true hle) hnow)⟩
  · intro h
    cases hdue : wait.due with
    | nothing => rfl
    | instant t =>
      rw [hdue] at h
      exact decide_eq_true (Nat.le_trans (of_decide_eq_true h) hnow)
    | run id =>
      rw [hdue] at h
      exact hended id hdue h
    | never =>
      rw [hdue] at h
      cases h

/-- The instant of a wait ends it. -/
theorem isSome_wake?_of_instant {t : Nat} (h : wait.instant? = some t) (ht : t ≤ signals.now) :
    (wait.wake? signals).isSome = true := by
  rw [isSome_wake?]
  unfold instant? at h
  split at h
  · next a b ha hb =>
    cases h
    rcases Nat.le_total a b with hab | hab
    · rw [Nat.min_eq_left hab] at ht
      exact Or.inr (Or.inl (by simpa [ha] using ht))
    · rw [Nat.min_eq_right hab] at ht
      exact Or.inr (Or.inr (by simpa [hb, Due.hasCome] using ht))
  · next b _ hb =>
    cases h
    exact Or.inr (Or.inr (by simpa [hb, Due.hasCome] using ht))
  · exact Or.inr (Or.inl (by simpa [h] using ht))

end Wait

/-- The process is not at a wait for the end of a run. -/
def Process.Unattached {σ α : Type} (p : Process σ α) : Prop :=
  ∀ wait, p.wait? = some wait → ∀ id, wait.due ≠ .run id

theorem Process.Within.unattached {σ α : Type} {k n : Nat} {p : Process σ α}
    (h : p.Within (Wait.CutBy k) n) : p.Unattached :=
  fun _ hwait => (h.wait hwait).2

theorem Job.Tame.unattached {job : Job} (h : job.Tame) : job.process.Unattached := by
  obtain ⟨k, hk⟩ := h.within
  exact hk.unattached

namespace Schedule

section

variable {α : Type} {p : Process World α} {w w' : World}

theorem isOver_iff : isOver w p = true ↔
    ∃ wait, p.wait? = some wait ∧ (wait.wake? w.signals).isSome = true := by
  unfold isOver
  rw [Option.any_eq_true]

theorem isOver_passes {P : String → Prop} (h : w.Passes P w') (hp : isOver w p = true) :
    isOver w' p = true := by
  obtain ⟨wait, hwait, hover⟩ := isOver_iff.mp hp
  refine isOver_iff.mpr ⟨wait, hwait, Wait.isSome_wake?_mono h.now ?_ ?_ hover⟩
  · exact fun k hk => (h.isFired k).trans hk
  · exact fun id _ hid => h.ended id hid

theorem isOver_bides (h : w.Bides w') (hu : p.Unattached) (hp : isOver w p = true) :
    isOver w' p = true := by
  obtain ⟨wait, hwait, hover⟩ := isOver_iff.mp hp
  refine isOver_iff.mpr ⟨wait, hwait, Wait.isSome_wake?_mono ?_ ?_ ?_ hover⟩
  · exact Nat.le_of_eq h.now.symm
  · exact h.tokens
  · exact fun id hid => absurd hid (hu wait hwait id)

/-- Only the clock and the tokens end the waits of jobs. -/
theorem isOver_congr (hnow : w'.now = w.now) (hfired : w'.store.fired = w.store.fired)
    (hu : p.Unattached) : isOver w' p = isOver w p := by
  have hsame : ∀ k, w'.store.isFired k = w.store.isFired k := by
    intro k
    unfold Store.isFired
    rw [hfired]
  rw [Bool.eq_iff_iff, isOver_iff, isOver_iff]
  constructor
  · rintro ⟨wait, hwait, hover⟩
    refine ⟨wait, hwait, Wait.isSome_wake?_mono (Nat.le_of_eq hnow) ?_ ?_ hover⟩
    · exact fun k hk => (hsame k).symm.trans hk
    · exact fun id hid => absurd hid (hu wait hwait id)
  · rintro ⟨wait, hwait, hover⟩
    refine ⟨wait, hwait, Wait.isSome_wake?_mono (Nat.le_of_eq hnow.symm) ?_ ?_ hover⟩
    · exact fun k hk => (hsame k).trans hk
    · exact fun id hid => absurd hid (hu wait hwait id)

end

end Schedule

/-! ## Potentials -/

theorem Process.share_ne_zero : Process.share ≠ 0 := by decide

/-- What is reckoned for a process after its turn. -/
noncomputable def Outcome.potential {σ α : Type} : Outcome σ α → Nat
  | .ended _ => 0
  | .waits p => 3 * p.depth + 1
  | .yields p _ => 3 * p.depth + 2
  | .lines p => 3 * p.depth + 1

section

variable {σ α : Type} {signals : σ → Signals} {ok : Wait → Prop} {p : Process σ α} {n left : Nat}
  {access : Access} {s : σ}

theorem Outcome.potential_le (outcome : Outcome σ α) :
    outcome.potential ≤ 3 * outcome.rest.depth + 2 := by
  cases outcome with
  | ended a => exact Nat.zero_le _
  | waits p => exact Nat.le_succ _
  | yields p locks => exact Nat.le_refl _
  | lines p => exact Nat.le_succ _

theorem Process.Within.potential_turn (hp : p.Within ok n) :
    (p.turn signals left access s).outcome.potential ≤ 3 * p.depth + 2 := by
  have hdepth := hp.depth_turn signals left access s
  have := (p.turn signals left access s).outcome.potential_le
  omega

theorem Process.Within.potential_turn_of_passes (hp : p.Within ok n)
    (hpass : p.Passes signals left access s) :
    (p.turn signals left access s).outcome.potential < 3 * p.depth := by
  have hdepth := hp.depth_turn_of_passes signals left access s hpass
  have := (p.turn signals left access s).outcome.potential_le
  omega

theorem Process.Within.potential_turn_of_atStop (hp : p.Within ok n) (hstop : p.AtStop)
    (hleft : left ≠ 0) : (p.turn signals left access s).outcome.potential ≤ 3 * p.depth + 1 := by
  by_cases hpass : p.Passes signals left access s
  · have := hp.potential_turn_of_passes hpass
    omega
  · rcases turn_of_not_passes signals hleft hstop hpass with h | h
    · rw [h]
      exact Nat.le_refl _
    · rw [h]
      exact Nat.le_refl _

end

open Classical in
/-- What is reckoned for a job that can take a turn: least if it is sure to
come past the next lock or wait, and most if it has not come to one yet. -/
noncomputable def Job.potential (w : World) (job : Job) : Nat :=
  3 * job.process.depth +
    if job.locks = true ∨ Schedule.isOver w job.process = true then 0
    else if job.process.AtStop then 2 else 3

/-- What is reckoned for a job that waits or stands in line. -/
noncomputable def Job.idle (job : Job) : Nat :=
  3 * job.process.depth + 1

namespace Schedule

/-- What is reckoned for all jobs. -/
noncomputable def potential (s : Schedule) : Nat :=
  (s.ready.map (Job.potential s.world)).sum + (s.tired.map (Job.potential s.world)).sum +
    (s.waiting.map Job.idle).sum + ((s.line.filterMap id).map Job.idle).sum

open Classical in
/-- What is reckoned for the request. -/
noncomputable def requestPotential {α : Type} (s : Schedule) : Outcome World α → Nat
  | .ended _ => 0
  | .waits p => 3 * p.depth + if isOver s.world p = true then 0 else 1
  | .yields p _ => 3 * p.depth + if p.AtStop ∧ s.left ≠ 0 then 2 else 3
  | .lines p => 3 * p.depth + if s.locks = true then 0 else 1

/-- What is reckoned for the request and all jobs. -/
noncomputable def needs {α : Type} (s : Schedule) (request : Outcome World α) : Nat :=
  s.potential + s.requestPotential request

/-! ## Who has the lock, and who waits for it -/

/-- Somebody keeps the lock. -/
def Held (s : Schedule) : Prop :=
  s.locks = true ∨ ∃ job ∈ s.ready ++ s.tired, job.locks = true

/-- The jobs stand where they belong: who keeps the lock or stands in line
for it has come to it, and who waits has come to a wait. -/
structure Poised (s : Schedule) : Prop where
  locks : ∀ job ∈ s.ready ++ s.tired, job.locks = true → job.process.AtLock
  waiting : ∀ job ∈ s.waiting, job.locks = false ∧ job.process.wait?.isSome = true
  lines : ∀ job, some job ∈ s.line → job.process.AtLock

/-- The request stands where it belongs. -/
def Claims {α : Type} (s : Schedule) : Outcome World α → Prop
  | .ended _ => s.locks = false ∧ s.line.countP (·.isNone) = 0
  | .waits p => p.wait?.isSome = true ∧ s.left ≠ 0 ∧ s.locks = false ∧
    s.line.countP (·.isNone) = 0
  | .yields p locks => s.locks = locks ∧ (locks = true → p.AtLock) ∧ s.line.countP (·.isNone) = 0
  | .lines p => p.AtLock ∧ s.line.countP (·.isNone) + s.locks.toNat = 1

/-- How lock, line and waits stand while a request is served. -/
structure Going {α : Type} (s : Schedule) (request : Outcome World α) : Prop where
  poised : s.Poised
  asleep : ∀ job ∈ s.waiting, isOver s.world job.process = false
  held : s.line ≠ [] → s.Held
  claims : s.Claims request

/-- The same but for one who takes a turn, and who has kept the lock until now
if `locks`; and the waits may be over. -/
structure Placed {α : Type} (s : Schedule) (locks : Bool) (request : Outcome World α) : Prop where
  poised : s.Poised
  held : locks = false → s.line ≠ [] → s.Held
  claims : s.Claims request

section

variable {s : Schedule}

theorem Held.mono {s' : Schedule} (h : s.Held) (hlocks : s'.locks = s.locks)
    (hjobs : s.ready ++ s.tired ⊆ s'.ready ++ s'.tired) : s'.Held := by
  rcases h with h | ⟨job, hj, h⟩
  · exact Or.inl (hlocks.trans h)
  · exact Or.inr ⟨job, hjobs hj, h⟩

/-! ### Handing the lock on -/

theorem held_handOn (h : s.line ≠ []) : s.handOn.Held := by
  unfold handOn
  split
  · next hline => exact absurd hline h
  · exact Or.inl rfl
  · next job line _ => exact Or.inr ⟨{ job with locks := true }, by simp, rfl⟩

theorem Poised.handOn (h : s.Poised) : s.handOn.Poised := by
  unfold Schedule.handOn
  split
  · exact h
  · next line hline =>
    refine ⟨h.locks, h.waiting, fun job hj => h.lines job ?_⟩
    rw [hline]
    exact List.mem_cons_of_mem _ hj
  · next job line hline =>
    refine ⟨?_, h.waiting, fun job' hj => h.lines job' ?_⟩
    · intro job' hj hlocks
      rw [List.append_assoc, List.mem_append, List.mem_append, List.mem_singleton] at hj
      rcases hj with hj | rfl | hj
      · exact h.locks job' (List.mem_append_left _ hj) hlocks
      · have hjob : job.process.AtLock := h.lines job (by rw [hline]; exact List.mem_cons_self)
        exact hjob
      · exact h.locks job' (List.mem_append_right _ hj) hlocks
    · rw [hline]
      exact List.mem_cons_of_mem _ hj

theorem Claims.handOn {α : Type} {request : Outcome World α} (h : s.Claims request) :
    s.handOn.Claims request := by
  unfold Schedule.handOn
  split
  · exact h
  · next line hline =>
    cases request with
    | lines p =>
      obtain ⟨hp, hcount⟩ := h
      rw [hline, List.countP_cons_of_pos rfl] at hcount
      refine ⟨hp, ?_⟩
      simp only [Bool.toNat_true]
      omega
    | ended a => exact absurd h.2 (by simp [hline])
    | waits p => exact absurd h.2.2.2 (by simp [hline])
    | yields p locks => exact absurd h.2.2 (by simp [hline])
  · next job line hline =>
    have hcount : s.line.countP (·.isNone) = line.countP (·.isNone) := by
      rw [hline, List.countP_cons_of_neg (by simp)]
    cases request <;> simpa only [Claims, hcount] using h

theorem potential_handOn (s : Schedule) : s.handOn.potential ≤ s.potential := by
  unfold handOn
  split
  · exact Nat.le_refl _
  · next hline => simp [potential, hline]
  · next job line hline =>
    simp only [potential, hline, List.map_append, List.sum_append, List.filterMap_cons, id_eq,
      List.map_cons, List.sum_cons, List.map_nil, List.sum_nil, Job.potential, Job.idle]
    simp
    omega

theorem release_cases (s : Schedule) (access : Access) :
    s.release access = s ∨ s.release access = s.handOn := by
  unfold release
  split
  · exact Or.inr rfl
  · exact Or.inl rfl

theorem Poised.release (h : s.Poised) (access : Access) : (s.release access).Poised := by
  rcases s.release_cases access with hs | hs
  · rw [hs]
    exact h
  · rw [hs]
    exact h.handOn

theorem Claims.release {α : Type} {request : Outcome World α} (h : s.Claims request)
    (access : Access) : (s.release access).Claims request := by
  rcases s.release_cases access with hs | hs
  · rw [hs]
    exact h
  · rw [hs]
    exact h.handOn

theorem potential_release (s : Schedule) (access : Access) :
    (s.release access).potential ≤ s.potential := by
  rcases s.release_cases access with hs | hs
  · rw [hs]
  · rw [hs]
    exact s.potential_handOn

/-- Who takes a turn leaves nobody in the line without somebody who keeps the
lock: if it kept the lock itself, it has handed it on. -/
theorem held_release {locks : Bool} (hline : locks = false → s.line ≠ [] → s.Held) :
    ((s.release (s.access locks)).line ≠ [] → (s.release (s.access locks)).Held) ∧
    (s.access locks = .taken ∨ s.access locks = .own true →
      (s.release (s.access locks)).Held) := by
  cases locks with
  | true =>
    have haccess : s.access true = .own (!s.line.isEmpty) := rfl
    rw [haccess]
    cases h : s.line with
    | nil => simp [release, h]
    | cons head rest =>
      have hne : s.line ≠ [] := by simp [h]
      have hheld := held_handOn hne
      simp only [release, List.isEmpty_cons, Bool.not_false, beq_self_eq_true, if_true]
      exact ⟨fun _ => hheld, fun _ => hheld⟩
  | false =>
    have hnot : s.access false ≠ .own true := by
      simp only [access, Bool.false_eq_true, if_false]
      split <;> simp
    have hs : s.release (s.access false) = s := by
      unfold release
      rw [if_neg (by simpa using hnot)]
    rw [hs]
    refine ⟨hline rfl, ?_⟩
    intro h
    have htaken := h.resolve_right hnot
    simp only [access, Bool.false_eq_true, if_false] at htaken
    split at htaken
    · next hany =>
      rw [Bool.or_eq_true, List.any_eq_true] at hany
      rcases hany with hlocks | ⟨job, hj, hlocks⟩
      · exact Or.inl hlocks
      · exact Or.inr ⟨job, hj, hlocks⟩
    · cases htaken

/-- Handing the lock on, everybody else stands where he belongs. -/
theorem Placed.release {α : Type} {request : Outcome World α} {locks : Bool}
    (h : s.Placed locks request) : (s.release (s.access locks)).Placed false request ∧
      (s.access locks = .taken ∨ s.access locks = .own true →
        (s.release (s.access locks)).Held) := by
  obtain ⟨hheld, hheld'⟩ := held_release h.held
  exact ⟨⟨h.poised.release _, fun _ => hheld, h.claims.release _⟩, hheld'⟩

/-! ### Where a job goes -/

variable {job : Job} {outcome : Outcome World Run} {access : Access}

theorem Poised.put (h : s.Poised) (hs : outcome.Stands World.signals access s.world) :
    (s.put job outcome).Poised := by
  have hyields : ∀ (p : Process World Run) locks, (locks = true → p.AtLock) →
      (s.put job (.yields p locks)).Poised := by
    refine fun p locks hp => ⟨?_, h.waiting, h.lines⟩
    intro job' hj hlocks
    simp only [Schedule.put, ← List.append_assoc, List.mem_append, List.mem_singleton] at hj
    rcases hj with hj | rfl
    · exact h.locks job' (by simpa using hj) hlocks
    · exact hp hlocks
  cases hs with
  | ended run => exact ⟨h.locks, h.waiting, h.lines⟩
  | waits _ =>
    refine ⟨h.locks, ?_, h.lines⟩
    intro job' hj
    simp only [Schedule.put, List.mem_append, List.mem_singleton] at hj
    rcases hj with hj | rfl
    · exact h.waiting job' hj
    · exact ⟨rfl, rfl⟩
  | keeps _ => exact hyields _ true fun _ => trivial
  | yields => exact hyields _ false (by simp)
  | lines _ =>
    refine ⟨h.locks, h.waiting, ?_⟩
    intro job' hj
    simp only [Schedule.put, List.mem_append, List.mem_singleton, Option.some.injEq] at hj
    rcases hj with hj | rfl
    · exact h.lines job' hj
    · trivial

theorem asleep_put (h : ∀ job ∈ s.waiting, isOver s.world job.process = false)
    (hs : outcome.Stands World.signals access s.world)
    (hu : ∀ job ∈ s.waiting, job.process.Unattached) :
    ∀ job' ∈ (s.put job outcome).waiting, isOver (s.put job outcome).world job'.process = false := by
  cases hs with
  | ended run =>
    intro job' hj
    rw [← h job' hj]
    exact isOver_congr rfl rfl (hu job' hj)
  | @waits wait next hw =>
    intro job' hj
    simp only [Schedule.put, List.mem_append, List.mem_singleton] at hj
    rcases hj with hj | rfl
    · exact h job' hj
    · show (wait.wake? s.world.signals).isSome = false
      simp [hw]
  | keeps _ => exact h
  | yields => exact h
  | lines _ => exact h

theorem Claims.put {α : Type} {request : Outcome World α} (h : s.Claims request) :
    (s.put job outcome).Claims request := by
  have hcount : (s.put job outcome).line.countP (·.isNone) = s.line.countP (·.isNone) := by
    cases outcome <;> simp [Schedule.put]
  have hlocks : (s.put job outcome).locks = s.locks := by
    cases outcome <;> rfl
  have hleft : (s.put job outcome).left = s.left := by
    cases outcome <;> rfl
  cases request <;> simpa only [Claims, hcount, hlocks, hleft] using h

theorem held_put (hline : s.line ≠ [] → s.Held)
    (hlines : ∀ p, outcome = .lines p → s.Held) :
    (s.put job outcome).line ≠ [] → (s.put job outcome).Held := by
  cases outcome with
  | ended run => exact fun h => (hline h).mono rfl (List.Subset.refl _)
  | waits p => exact fun h => (hline h).mono rfl (List.Subset.refl _)
  | yields p locks =>
    refine fun h => (hline h).mono rfl ?_
    rw [Schedule.put, ← List.append_assoc]
    exact List.subset_append_left _ _
  | lines p => exact fun _ => (hlines p rfl).mono rfl (List.Subset.refl _)

theorem Job.potential_congr {w w' : World} (h : isOver w' job.process = isOver w job.process) :
    job.potential w' = job.potential w := by
  unfold Job.potential
  rw [h]

theorem Job.potential_le_of_atStop {w : World} (h : job.process.AtStop) :
    job.potential w ≤ 3 * job.process.depth + 2 := by
  unfold Job.potential
  rw [if_pos h]
  split <;> omega

theorem sum_potential_congr {w w' : World} {l : List Job}
    (h : ∀ job ∈ l, isOver w' job.process = isOver w job.process) :
    (l.map (Job.potential w')).sum = (l.map (Job.potential w)).sum := by
  rw [List.map_congr_left fun job hj => Job.potential_congr (h job hj)]

theorem potential_put (hs : outcome.Stands World.signals access s.world)
    (hu : ∀ job ∈ s.ready ++ s.tired, job.process.Unattached) :
    (s.put job outcome).potential ≤ s.potential + outcome.potential := by
  have hyields : ∀ (p : Process World Run) locks, p.AtStop →
      (s.put job (.yields p locks)).potential ≤ s.potential + (3 * p.depth + 2) := by
    intro p locks hp
    have hjob : Job.potential s.world { job with process := p, locks } ≤ 3 * p.depth + 2 :=
      Job.potential_le_of_atStop hp
    simp only [potential, put, List.map_append, List.sum_append, List.map_cons, List.map_nil,
      List.sum_cons, List.sum_nil]
    omega
  cases hs with
  | ended run =>
    have hsame : ∀ l ⊆ s.ready ++ s.tired, (l.map (Job.potential (s.world.endRun job.id run))).sum =
        (l.map (Job.potential s.world)).sum :=
      fun l hl => sum_potential_congr fun job' hj => isOver_congr rfl rfl (hu job' (hl hj))
    simp only [potential, put, hsame _ (List.subset_append_left _ _),
      hsame _ (List.subset_append_right _ _)]
    exact Nat.le_add_right _ _
  | waits _ =>
    simp only [potential, put, List.map_append, List.sum_append, List.map_cons, List.map_nil,
      List.sum_cons, List.sum_nil, Job.idle, Outcome.potential]
    omega
  | keeps _ => exact hyields _ true trivial
  | yields => exact hyields _ false trivial
  | lines _ =>
    simp only [potential, put, List.filterMap_append, List.filterMap_cons, List.filterMap_nil, id_eq,
      List.map_append, List.sum_append, List.map_cons, List.map_nil, List.sum_cons, List.sum_nil,
      Job.idle, Outcome.potential]
    omega

/-- What is reckoned for a request that does not take a turn does not grow. -/
theorem requestPotential_le {α : Type} {s' : Schedule} {P : String → Prop}
    (hlocks : s.locks = true → s'.locks = true) (hleft : s'.left = s.left)
    (hworld : s.world.Passes P s'.world) (request : Outcome World α) :
    s'.requestPotential request ≤ s.requestPotential request := by
  cases request with
  | ended a => exact Nat.le_refl _
  | waits p =>
    simp only [requestPotential]
    by_cases hover : isOver s.world p = true
    · rw [if_pos hover, if_pos (isOver_passes hworld hover)]
    · rw [if_neg hover]
      split <;> omega
  | yields p locks =>
    simp only [requestPotential]
    rw [hleft]
  | lines p =>
    simp only [requestPotential]
    by_cases hlocks' : s.locks = true
    · rw [if_pos hlocks', if_pos (hlocks hlocks')]
    · rw [if_neg hlocks']
      split <;> omega

/-! ### Turns of jobs -/

@[simp] theorem put_left (s : Schedule) : (s.put job outcome).left = s.left := by
  cases outcome <;> rfl

@[simp] theorem put_locks (s : Schedule) : (s.put job outcome).locks = s.locks := by
  cases outcome <;> rfl

@[simp] theorem release_left (s : Schedule) : (s.release access).left = s.left := by
  unfold release handOn
  split
  · split <;> rfl
  · rfl

@[simp] theorem release_waiting (s : Schedule) : (s.release access).waiting = s.waiting := by
  unfold release handOn
  split
  · split <;> rfl
  · rfl

@[simp] theorem release_tired (s : Schedule) : (s.release access).tired = s.tired := by
  unfold release handOn
  split
  · split <;> rfl
  · rfl

theorem release_locks (h : s.locks = true) : (s.release access).locks = true := by
  unfold release handOn
  split
  · split
    · exact h
    · rfl
    · exact h
  · exact h

theorem Claims.congr {α : Type} {s' : Schedule} {request : Outcome World α}
    (h : s.Claims request) (hleft : s'.left = s.left) (hlocks : s'.locks = s.locks)
    (hline : s'.line = s.line) : s'.Claims request := by
  cases request <;> simpa only [Claims, hleft, hlocks, hline] using h

theorem mem_jobs (hj : job ∈ s.ready ++ s.tired ++ s.waiting) : job.unlocked ∈ s.jobs := by
  refine Multiset.mem_map_of_mem _ ?_
  simp only [List.mem_append] at hj
  simp only [Multiset.mem_add, Multiset.mem_coe]
  tauto

theorem tame_of_mem (h : ∀ job ∈ s.jobs, job.Tame) (hj : job ∈ s.ready ++ s.tired ++ s.waiting) :
    job.Tame :=
  (h _ (mem_jobs hj)).unlocked

theorem passes_of_isOver {β : Type} {p : Process World β} {w : World} {left : Nat}
    (h : isOver w p = true) (hleft : left ≠ 0) : p.Passes World.signals left access w := by
  obtain ⟨wait, hwait, hwake⟩ := isOver_iff.mp h
  cases p <;> cases hwait
  exact ⟨hleft, hwake⟩

theorem passes_of_own {β : Type} {p : Process World β} {left : Nat} (hlock : p.AtLock)
    {locks : Bool} (hlocks : locks = true) :
    p.Passes World.signals left (s.access locks) s.world := by
  rw [hlocks]
  cases p <;> try exact hlock.elim
  exact Or.inl ⟨_, rfl⟩

/-- A turn takes something of what is reckoned for the job. -/
theorem potential_turn_lt {k left' : Nat} {w' : World}
    (hwithin : job.process.Within (Wait.CutBy k) job.stops)
    (hlock : job.locks = true → job.process.AtLock)
    (ht : job.process.turn World.signals Process.share (s.access job.locks) s.world =
      ⟨outcome, left', w'⟩) :
    outcome.potential < job.potential s.world := by
  have houtcome : outcome = (job.process.turn World.signals Process.share (s.access job.locks)
      s.world).outcome := by rw [ht]
  rw [houtcome]
  unfold Job.potential
  split
  · next hsure =>
    refine hwithin.potential_turn_of_passes ?_
    rcases hsure with hlocks | hover
    · exact passes_of_own (hlock hlocks) hlocks
    · exact passes_of_isOver hover share_ne_zero
  · split
    · next hstop => exact Nat.lt_succ_of_le (hwithin.potential_turn_of_atStop hstop share_ne_zero)
    · exact Nat.lt_succ_of_le hwithin.potential_turn

/-- Where everybody stands after the turn of a job, and what is reckoned for
them. -/
theorem Placed.leave {α : Type} {request : Outcome World α} {locks : Bool}
    (h : s.Placed locks request)
    (hasleep : ∀ job ∈ s.waiting, isOver s.world job.process = false)
    (hu : ∀ job ∈ s.jobs, job.process.Unattached)
    (hs : outcome.Stands World.signals (s.access locks) s.world) :
    ((s.release (s.access locks)).put job outcome).Going request ∧
      ((s.release (s.access locks)).put job outcome).potential ≤
        s.potential + outcome.potential := by
  obtain ⟨hplaced, hheld⟩ := h.release
  have hpotential := potential_release s (s.access locks)
  have hworld := release_world s (s.access locks)
  have hwaiting : (s.release (s.access locks)).waiting = s.waiting := release_waiting s
  have hjobs := jobs_release s (s.access locks)
  generalize s.release (s.access locks) = s₁ at *
  rw [← hworld] at hasleep hs
  rw [← hwaiting] at hasleep
  rw [← hjobs] at hu
  have hu₁ : ∀ job' ∈ s₁.ready ++ s₁.tired ++ s₁.waiting, job'.process.Unattached :=
    fun job' hj => hu job'.unlocked (mem_jobs hj)
  refine ⟨⟨hplaced.poised.put hs, ?_, ?_, hplaced.claims.put⟩, ?_⟩
  · exact asleep_put hasleep hs fun job' hj => hu₁ job' (List.mem_append_right _ hj)
  · refine held_put (hplaced.held rfl) fun p hp => hheld ?_
    subst hp
    cases hs with
    | lines h => exact h
  · have hput : (s₁.put job outcome).potential ≤ s₁.potential + outcome.potential :=
      potential_put hs fun job' hj => hu₁ job' (List.mem_append_left _ hj)
    omega

/-- A job is set aside for its turn, and changes the shared state. -/
theorem Going.aside {α : Type} {request : Outcome World α} {ready : List Job} (hg : s.Going request)
    (hready : s.ready = job :: ready) (w' : World) :
    Placed { s with ready, world := w' } job.locks request := by
  have hrest : ready ++ s.tired ⊆ s.ready ++ s.tired := by
    rw [hready]
    exact List.subset_cons_self _ _
  refine ⟨⟨fun job' hj => hg.poised.locks job' (hrest hj), hg.poised.waiting, hg.poised.lines⟩,
    ?_, hg.claims.congr rfl rfl rfl⟩
  intro hlocks hline
  rcases hg.held hline with h | ⟨job', hj, h⟩
  · exact Or.inl h
  · rw [hready, List.cons_append, List.mem_cons] at hj
    rcases hj with rfl | hj
    · simp [hlocks] at h
    · exact Or.inr ⟨job', hj, h⟩

theorem potential_aside {ready : List Job} {w' : World} (hready : s.ready = job :: ready)
    (hsame : ∀ job' ∈ s.ready ++ s.tired,
      isOver w' job'.process = isOver s.world job'.process) :
    potential { s with ready, world := w' } + job.potential s.world = s.potential := by
  have hready' : (ready.map (Job.potential w')).sum = (ready.map (Job.potential s.world)).sum :=
    sum_potential_congr fun job' hj => hsame job' (by simp [hready, hj])
  have htired : (s.tired.map (Job.potential w')).sum = (s.tired.map (Job.potential s.world)).sum :=
    sum_potential_congr fun job' hj => hsame job' (by simp [hj])
  simp only [potential, hready, hready', htired, List.map_cons, List.sum_cons]
  omega

/-- **A job takes a turn**: everybody stands where he belongs again, and the
potential has become less. -/
theorem Going.take {α : Type} {request : Outcome World α} {ready : List Job}
    (hg : s.Going request) (hs : ∀ job ∈ s.jobs, job.Tame) (hready : s.ready = job :: ready) :
    (Schedule.take { s with ready } job).Going request ∧
      (Schedule.take { s with ready } job).needs request < s.needs request := by
  have hrest : ∀ job' ∈ jobs { s with ready }, job'.process.Unattached :=
    fun job' hj => (hs job' (jobs_cons hready ▸ Multiset.mem_cons_of_mem hj)).unattached
  have hu : ∀ job' ∈ s.ready ++ s.tired ++ s.waiting, job'.process.Unattached :=
    fun job' hj => (tame_of_mem hs hj).unattached
  have htame : job.Tame := tame_of_mem hs (by simp [hready])
  have hwrites := htame.turn (access { s with ready } job.locks) s.world
  generalize ht : job.process.turn World.signals Process.share
    (access { s with ready } job.locks) s.world = turn
  obtain ⟨outcome, left', w'⟩ := turn
  rw [ht] at hwrites
  have hsame : ∀ job' ∈ s.ready ++ s.tired ++ s.waiting,
      isOver w' job'.process = isOver s.world job'.process :=
    fun job' hj => isOver_congr hwrites.still hwrites.fired (hu job' hj)
  have hstands := turn_stands World.signals job.process Process.share
    (access { s with ready } job.locks) s.world
  rw [ht] at hstands
  obtain ⟨hgoing, hleave⟩ : (Schedule.take { s with ready } job).Going request ∧
      (Schedule.take { s with ready } job).potential ≤
        potential { s with ready, world := w' } + outcome.potential := by
    rw [take_eq ht]
    refine (hg.aside hready w').leave ?_ hrest hstands
    exact fun job' hj => (hsame job' (List.mem_append_right _ hj)).trans (hg.asleep job' hj)
  have hrequest : (Schedule.take { s with ready } job).requestPotential request ≤
      s.requestPotential request := by
    refine requestPotential_le ?_ ?_ (passes_take (s := { s with ready }) htame) request
    · intro h
      rw [take_eq ht, put_locks]
      exact release_locks h
    · rw [take_eq ht, put_left, release_left]
  have haside := potential_aside hready fun job' hj => hsame job' (List.mem_append_left _ hj)
  obtain ⟨k, hk⟩ := htame.within
  have hlt : outcome.potential < job.potential s.world := potential_turn_lt
    (s := { s with ready }) hk (hg.poised.locks job (by simp [hready])) ht
  refine ⟨hgoing, ?_⟩
  unfold needs
  omega

end

end Schedule

end Automation
