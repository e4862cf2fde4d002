/-
Automation.Proofs.Engine.AttendTheorems — serving a request comes to an
end.

Rounds, jumps of the clock and turns of the request keep everybody where he
belongs (`Schedule.Going`), as turns of jobs do (`Going.take`), and whatever
`attend` does next takes something of the potential. What `serve` reckons
with is not less than the potential at the start, so the fuel suffices: the
request is answered, or nothing can happen any more that it waits for
(`serve_spec`).
-/
import Automation.Proofs.Engine.ProgressTheorems
import Mathlib.Algebra.Order.BigOperators.Group.List
import Mathlib.Algebra.Order.Group.Nat

namespace Automation

open Process

namespace Schedule

variable {α : Type} {s : Schedule} {request : Outcome World α}

/-! ## Rounds and jumps -/

/-- Who has used up his share is ready again. -/
theorem Going.again (h : s.Going request) :
    Going { s with ready := s.ready ++ s.tired, tired := [] } request where
  poised := ⟨by simpa using h.poised.locks, h.poised.waiting, h.poised.lines⟩
  asleep := h.asleep
  held hline := (h.held hline).mono rfl (by simp)
  claims := h.claims.congr rfl rfl rfl

theorem potential_again (s : Schedule) :
    potential { s with ready := s.ready ++ s.tired, tired := [] } = s.potential := by
  simp [potential]

theorem rouse_eq (s : Schedule) : s.rouse =
    { s with
      ready := s.ready ++ s.waiting.filter fun job => isOver s.world job.process
      waiting := s.waiting.filter fun job => !isOver s.world job.process } := by
  unfold rouse
  rw [List.partition_eq_filter_filter]
  rfl

/-- Once the jobs whose wait is over are ready, everybody who waits has a
reason to. -/
theorem Placed.rouse (h : s.Placed false request) : s.rouse.Going request := by
  rw [rouse_eq]
  refine ⟨⟨?_, ?_, h.poised.lines⟩, ?_, fun hline => (h.held rfl hline).mono rfl ?_,
    h.claims.congr rfl rfl rfl⟩
  · intro job hj hlocks
    simp only [List.mem_append, List.mem_filter] at hj
    rcases hj with (hj | ⟨hj, -⟩) | hj
    · exact h.poised.locks job (List.mem_append_left _ hj) hlocks
    · cases (h.poised.waiting job hj).1.symm.trans hlocks
    · exact h.poised.locks job (List.mem_append_right _ hj) hlocks
  · exact fun job hj => h.poised.waiting job (List.mem_filter.mp hj).1
  · intro job hj
    simpa using (List.mem_filter.mp hj).2
  · rw [List.append_assoc]
    exact List.append_subset.mpr ⟨List.subset_append_left _ _,
      List.Subset.trans (List.subset_append_right _ _) (List.subset_append_right _ _)⟩

/-- Every job that is roused takes one piece of what is reckoned for it. -/
theorem sum_roused (w : World) (jobs : List Job) :
    ((jobs.filter fun job => isOver w job.process).map (Job.potential w)).sum +
      ((jobs.filter fun job => !isOver w job.process).map Job.idle).sum +
      (jobs.filter fun job => isOver w job.process).length = (jobs.map Job.idle).sum := by
  induction jobs with
  | nil => rfl
  | cons job jobs ih =>
    cases hover : isOver w job.process with
    | true =>
      have hjob : job.potential w + 1 = job.idle := by
        simp [Job.potential, Job.idle, hover]
      simp only [List.filter_cons, hover, Bool.not_true, if_true, Bool.false_eq_true, if_false,
        List.map_cons, List.sum_cons, List.length_cons]
      omega
    | false =>
      simp only [List.filter_cons, hover, Bool.not_false, if_true, Bool.false_eq_true, if_false,
        List.map_cons, List.sum_cons]
      omega

theorem potential_rouse (s : Schedule) : s.rouse.potential +
    (s.waiting.filter fun job => isOver s.world job.process).length = s.potential := by
  have hroused := sum_roused s.world s.waiting
  rw [rouse_eq]
  simp only [potential, List.map_append, List.sum_append]
  omega

/-! ### The clock -/

theorem sum_potential_le {w w' : World} {l : List Job}
    (h : ∀ job ∈ l, isOver w job.process = true → isOver w' job.process = true) :
    (l.map (Job.potential w')).sum ≤ (l.map (Job.potential w)).sum := by
  refine List.sum_le_sum ?_
  intro job hj
  unfold Job.potential
  have hjob := h job hj
  by_cases hover : job.locks = true ∨ isOver w job.process = true
  · rw [if_pos hover, if_pos (hover.imp_right hjob)]
  · rw [if_neg hover]
    split <;> split <;> omega

/-- What ends waits makes the potential smaller. -/
theorem potential_le_of_isOver {w' : World} (h : ∀ job ∈ s.ready ++ s.tired,
      isOver s.world job.process = true → isOver w' job.process = true) :
    potential { s with world := w' } ≤ s.potential := by
  have hready := sum_potential_le fun job hj => h job (List.mem_append_left _ hj)
  have htired := sum_potential_le fun job hj => h job (List.mem_append_right _ hj)
  simp only [potential]
  omega

theorem Going.setClock (h : s.Going request) (now : Nat) : (s.setClock now).Going request := by
  have hplaced : Placed { s with world.now := max s.world.now now } false request :=
    ⟨⟨h.poised.locks, h.poised.waiting, h.poised.lines⟩, fun _ => h.held, h.claims.congr rfl rfl rfl⟩
  exact hplaced.rouse

/-- What is waited for at an instant is over then. -/
theorem isOver_of_instant {β : Type} {p : Process World β} {w : World} {t : Nat}
    (h : p.wait?.bind (·.instant?) = some t) (ht : t ≤ w.now) : isOver w p = true := by
  obtain ⟨wait, hwait, hinstant⟩ := Option.bind_eq_some_iff.mp h
  exact isOver_iff.mpr ⟨wait, hwait, Wait.isSome_wake?_of_instant hinstant ht⟩

/-- Who the clock jumps for: the request or a job that waits. -/
theorem of_next? {p : Process World α} {t : Nat} (h : s.next? p = some t) :
    p.wait?.bind (·.instant?) = some t ∨
      ∃ job ∈ s.waiting, job.process.wait?.bind (·.instant?) = some t := by
  obtain ⟨instant, hmem, rfl⟩ := List.mem_filterMap.mp (List.min?_mem h)
  rcases List.mem_cons.mp hmem with hmem | hmem
  · exact Or.inl hmem.symm
  · obtain ⟨job, hj, hinstant⟩ := List.mem_map.mp hmem
    exact Or.inr ⟨job, hj, hinstant⟩

/-- Jumping to the next instant takes something of the potential. -/
theorem needs_setClock_lt {t : Nat} (hg : s.Going request) (hwaits : s.canGoOn request = false)
    (h : s.next? request.rest = some t) :
    (s.setClock t).needs request < s.needs request := by
  generalize hlater : { s with world.now := max s.world.now t } = later
  have hpasses : s.world.Passes (fun _ => True) later.world := hlater ▸ .setNow s.world t
  have hnow : t ≤ later.world.now := hlater ▸ Nat.le_max_right _ _
  have hsame : later.left = s.left ∧ later.locks = s.locks ∧ later.waiting = s.waiting := by
    rw [← hlater]
    exact ⟨rfl, rfl, rfl⟩
  have hclock : s.setClock t = later.rouse := hlater ▸ rfl
  have hjobs : later.potential ≤ s.potential := by
    rw [← hlater] at hpasses ⊢
    exact potential_le_of_isOver fun job _ => isOver_passes hpasses
  have hroused := potential_rouse later
  have hrequest : later.rouse.requestPotential request ≤ s.requestPotential request :=
    requestPotential_le (fun h => hsame.2.1.trans h) hsame.1 hpasses request
  rw [hclock, needs, needs]
  rcases of_next? h with h | ⟨job, hj, h⟩
  · have hover := isOver_of_instant h hnow
    cases request with
    | ended a => cases hwaits
    | yields p locks => cases hwaits
    | lines p =>
      have hlock : p.AtLock := hg.claims.1
      cases p <;> first | exact hlock.elim | cases h
    | waits p =>
      have hbefore : isOver s.world p = false := hwaits
      have hover' : isOver later.rouse.world p = true := hover
      have hlt : later.rouse.requestPotential (.waits p) < s.requestPotential (.waits p) := by
        simp only [requestPotential, hbefore, hover']
        simp
      omega
  · have hmem : job ∈ later.waiting.filter fun job => isOver later.world job.process := by
      rw [List.mem_filter, hsame.2.2]
      exact ⟨hj, isOver_of_instant h hnow⟩
    have hpos := List.length_pos_of_mem hmem
    omega

/-! ## Turns of the request -/

/-- A request that can go on does not stand in line. -/
theorem Claims.countP_line (h : s.Claims request) (hcan : s.canGoOn request = true) :
    s.line.countP (·.isNone) = 0 := by
  cases request with
  | ended a => exact h.2
  | waits p => exact h.2.2.2
  | yields p locks => exact h.2.2
  | lines p =>
    have hlocks : s.locks = true := hcan
    have hcount := h.2
    rw [hlocks, Bool.toNat_true] at hcount
    omega

/-- A turn takes something of what is reckoned for a request that can go on. -/
theorem potential_request_lt {ok : Wait → Prop} {n : Nat} (hp : request.rest.Within ok n)
    (hclaims : s.Claims request) (hcan : s.canGoOn request = true)
    (hgoes : ∀ a, request ≠ .ended a) :
    (request.rest.turn World.signals s.left (s.access s.locks) s.world).outcome.potential <
      s.requestPotential request := by
  cases request with
  | ended a => exact absurd rfl (hgoes a)
  | waits p =>
    have hover : isOver s.world p = true := hcan
    simp only [requestPotential, if_pos hover]
    exact hp.potential_turn_of_passes (passes_of_isOver hover hclaims.2.1)
  | lines p =>
    have hlocks : s.locks = true := hcan
    simp only [requestPotential, if_pos hlocks]
    exact hp.potential_turn_of_passes (passes_of_own hclaims.1 hlocks)
  | yields p locks =>
    simp only [requestPotential]
    split
    · next h => exact Nat.lt_succ_of_le (hp.potential_turn_of_atStop h.1 h.2)
    · exact Nat.lt_succ_of_le hp.potential_turn

section

variable {outcome : Outcome World α} {access : Access} {w : World} {left : Nat}

/-- What is reckoned for a request after its turn, with a new share. -/
theorem requestPotential_putRequest (h : outcome.Stands World.signals access w)
    (hleft : s.left ≠ 0) :
    (s.putRequest left outcome).rouse.requestPotential outcome ≤ outcome.potential := by
  have hstop : ∀ {p : Process World α} {locks : Bool}, p.AtStop →
      (s.putRequest left (.yields p locks)).rouse.requestPotential (.yields p locks) ≤
        (Outcome.yields p locks).potential := by
    intro p locks hp
    have hshare : (s.putRequest left (.yields p locks)).rouse.left = s.left := rfl
    simp only [requestPotential, Outcome.potential, hshare]
    rw [if_pos ⟨hp, hleft⟩]
  cases h with
  | ended a => exact Nat.le_refl _
  | keeps _ => exact hstop trivial
  | yields => exact hstop trivial
  | waits _ =>
    simp only [requestPotential, Outcome.potential]
    split <;> omega
  | lines _ =>
    simp only [requestPotential, Outcome.potential]
    split <;> omega

/-- Where the request goes after its turn. -/
theorem Claims.putRequest (h : s.Claims (.ended ())) (hleft : s.left ≠ 0)
    (hs : outcome.Stands World.signals access w) : (s.putRequest left outcome).Claims outcome := by
  obtain ⟨hlocks, hcount⟩ := h
  cases hs with
  | ended a => exact ⟨hlocks, hcount⟩
  | waits _ => exact ⟨rfl, hleft, hlocks, hcount⟩
  | keeps _ => exact ⟨rfl, fun _ => trivial, hcount⟩
  | yields => exact ⟨rfl, by simp, hcount⟩
  | lines _ =>
    refine ⟨trivial, ?_⟩
    simp only [Schedule.putRequest, List.countP_append, hcount, hlocks]
    rfl

theorem Poised.putRequest (h : s.Poised) : (s.putRequest left outcome).Poised := by
  cases outcome with
  | lines p =>
    refine ⟨h.locks, h.waiting, fun job hj => h.lines job ?_⟩
    exact (List.mem_append.mp hj).resolve_right (by simp)
  | ended a => exact ⟨h.locks, h.waiting, h.lines⟩
  | waits p => exact h
  | yields p locks => exact ⟨h.locks, h.waiting, h.lines⟩

/-- Nobody stands in line without somebody who keeps the lock. -/
theorem held_putRequest (hline : s.line ≠ [] → s.Held) (hlocks : s.locks = false)
    (hlines : ∀ p, outcome = .lines p → s.Held) :
    (s.putRequest left outcome).line ≠ [] → (s.putRequest left outcome).Held := by
  have hjob : s.Held → ∃ job ∈ s.ready ++ s.tired, job.locks = true :=
    fun h => h.resolve_left (by simp [hlocks])
  cases outcome with
  | ended a => exact fun h => Or.inr (hjob (hline h))
  | waits p => exact fun h => Or.inr (hjob (hline h))
  | yields p locks => exact fun h => Or.inr (hjob (hline h))
  | lines p => exact fun _ => Or.inr (hjob (hlines p rfl))

theorem potential_putRequest (s : Schedule) (left : Nat) (outcome : Outcome World α) :
    (s.putRequest left outcome).potential = s.potential := by
  cases outcome <;> simp [potential, Schedule.putRequest]

end

/-- Where everybody stands after the turn of the request, and what is needed
then. -/
theorem Placed.answer {locks : Bool} {outcome : Outcome World α}
    (h : s.Placed locks (.ended ())) (hleft : s.left ≠ 0) (left : Nat)
    (hs : outcome.Stands World.signals (s.access locks) s.world) :
    ((s.release (s.access locks)).putRequest left outcome).rouse.Going outcome ∧
      ((s.release (s.access locks)).putRequest left outcome).rouse.needs outcome ≤
        s.potential + outcome.potential := by
  obtain ⟨hplaced, hheld⟩ := h.release
  have hpotential := potential_release s (s.access locks)
  have hleft₁ : (s.release (s.access locks)).left = s.left := release_left s
  generalize s.release (s.access locks) = s₁ at *
  rw [← hleft₁] at hleft
  have hput : (s₁.putRequest left outcome).Placed false outcome := by
    refine ⟨hplaced.poised.putRequest, ?_, hplaced.claims.putRequest hleft hs⟩
    intro _
    refine held_putRequest (hplaced.held rfl) hplaced.claims.1 fun p hp => hheld ?_
    subst hp
    cases hs with
    | lines h => exact h
  refine ⟨hput.rouse, ?_⟩
  have hroused := potential_rouse (s₁.putRequest left outcome)
  have hsame := potential_putRequest s₁ left outcome
  have hrequest : (s₁.putRequest left outcome).rouse.requestPotential outcome ≤
      outcome.potential := requestPotential_putRequest hs hleft
  unfold needs
  omega

/-- **The request takes a turn**: everybody stands where he belongs again, and
the potential has become less. -/
theorem Going.turn {ok : Wait → Prop} {n : Nat} (hg : s.Going request)
    (hcan : s.canGoOn request = true) (hgoes : ∀ a, request ≠ .ended a)
    (hp : request.rest.Within ok n) (hbides : s.world.Bides (s.turn request.rest).2.world)
    (hu : ∀ job ∈ s.ready ++ s.tired, job.process.Unattached) :
    (s.turn request.rest).2.Going (s.turn request.rest).1 ∧
      (s.turn request.rest).2.needs (s.turn request.rest).1 < s.needs request := by
  have hlt := potential_request_lt hp hg.claims hcan hgoes
  have hstands := turn_stands World.signals request.rest s.left (s.access s.locks) s.world
  rw [turn_world] at hbides
  rw [turn_snd, turn_fst]
  generalize request.rest.turn World.signals s.left (s.access s.locks) s.world = turn at *
  obtain ⟨outcome, left', w'⟩ := turn
  dsimp only at *
  have haside : Placed { s with world := w', left := Process.share, locks := false } s.locks
      (.ended ()) := by
    refine ⟨⟨hg.poised.locks, hg.poised.waiting, hg.poised.lines⟩, ?_,
      rfl, hg.claims.countP_line hcan⟩
    intro hlocks hline
    exact Or.inr ((hg.held hline).resolve_left (by simp [hlocks]))
  have haccess : access { s with world := w', left := Process.share, locks := false } s.locks =
      s.access s.locks := by
    cases h : s.locks <;> simp [access, h]
  have hpotential : potential { s with world := w', left := Process.share, locks := false } ≤
      s.potential := potential_le_of_isOver fun job hj => isOver_bides hbides (hu job hj)
  rw [← haccess] at hstands ⊢
  obtain ⟨hgoing, hneeds⟩ := haside.answer share_ne_zero left' hstands
  refine ⟨hgoing, Nat.lt_of_le_of_lt hneeds ?_⟩
  unfold needs
  omega

/-! ## Serving -/

/-- A request as it is asked. -/
structure Asks (s : Schedule) (p : Process World α) : Prop where
  tame : ∀ job ∈ s.jobs, job.Tame
  does : p.Does World.Bides
  within : ∃ n, p.Within (fun _ => True) n

/-- A moment while it is served. -/
structure Serving (s₀ : Schedule) (p : Process World α) (s : Schedule) (request : Outcome World α) :
    Prop where
  serves : Serves s₀ p request.rest s
  going : s.Going request

/-- Nobody is served, and everybody stands where he belongs. -/
structure Idle (s : Schedule) : Prop where
  going : s.Going (.ended ())
  tired : s.tired = []

/-- Nothing can happen any more that the process waits for. -/
structure Stuck (s : Schedule) (p : Process World α) : Prop where
  waits : p.wait?.isSome = true
  asleep : isOver s.world p = false
  ready : s.ready = []
  next : s.next? p = none

theorem Serves.within {p q : Process World α} {t : Schedule} {ok : Wait → Prop} {n : Nat}
    (h : Serves s p q t) (hp : p.Within ok n) : q.Within ok n :=
  h.rest (C := (·.Within ok n)) (fun _ left access w hq => hq.turn World.signals left access w) hp

theorem Serves.does {ok : World → World → Prop} (hrefl : ∀ w, ok w w)
    (htrans : ∀ w w₁ w₂, ok w w₁ → ok w₁ w₂ → ok w w₂) {p q : Process World α} {t : Schedule}
    (h : Serves s p q t) (hp : p.Does ok) : q.Does ok :=
  h.rest (C := (·.Does ok))
    (fun _ left access w hq => (hq.turn hrefl htrans World.signals left access w).2) hp

section

variable {s₀ : Schedule} {p : Process World α} (ha : Asks s₀ p)

include ha

theorem Asks.tame_serves {q : Process World α} (h : Serves s₀ p q s) : ∀ job ∈ s.jobs, job.Tame :=
  h.each tame_turn ha.tame

theorem Serving.take {job : Job} {ready : List Job} (h : Serving s₀ p s request)
    (hready : s.ready = job :: ready) :
    Serving s₀ p (Schedule.take { s with ready } job) request ∧
      (Schedule.take { s with ready } job).needs request < s.needs request := by
  obtain ⟨hgoing, hlt⟩ := h.going.take (ha.tame_serves h.serves) hready
  exact ⟨⟨h.serves.job hready, hgoing⟩, hlt⟩

theorem Serving.takeTurns (n : Nat) : ∀ {s : Schedule}, Serving s₀ p s request →
    Serving s₀ p (Schedule.takeTurns n s) request ∧
      (Schedule.takeTurns n s).needs request ≤ s.needs request := by
  induction n with
  | zero => exact fun h => ⟨h, Nat.le_refl _⟩
  | succ n ih =>
    intro s h
    unfold Schedule.takeTurns
    cases hready : s.ready with
    | nil => exact ⟨h, Nat.le_refl _⟩
    | cons job ready =>
      obtain ⟨h₁, hlt⟩ := h.take ha hready
      obtain ⟨h₂, hle⟩ := ih h₁
      exact ⟨h₂, Nat.le_trans hle (Nat.le_of_lt hlt)⟩

/-- The request takes a turn, and if it does not end in it, it goes on to be
served. -/
theorem Serving.turn (h : Serving s₀ p s request) (hcan : s.canGoOn request = true)
    (hgoes : ∀ a, request ≠ .ended a) :
    (s.turn request.rest).2.Going (s.turn request.rest).1 ∧
      (s.turn request.rest).2.needs (s.turn request.rest).1 < s.needs request ∧
      ((∀ a, (s.turn request.rest).1 ≠ .ended a) →
        Serving s₀ p (s.turn request.rest).2 (s.turn request.rest).1) := by
  obtain ⟨n, hwithin⟩ := ha.within
  have hdoes : request.rest.Does World.Bides :=
    h.serves.does (fun _ => .rfl) (fun _ _ _ => .trans) ha.does
  have hbides := (hdoes.turn (fun _ => .rfl) (fun _ _ _ => .trans) World.signals s.left
    (s.access s.locks) s.world).1
  rw [← turn_world] at hbides
  have hu : ∀ job ∈ s.ready ++ s.tired, job.process.Unattached := fun job hj =>
    (tame_of_mem (ha.tame_serves h.serves) (List.mem_append_left _ hj)).unattached
  obtain ⟨hgoing, hlt⟩ := h.going.turn hcan hgoes (h.serves.within hwithin) hbides hu
  exact ⟨hgoing, hlt, fun hgoes' => ⟨h.serves.request hgoes', hgoing⟩⟩

/-- A round needs something of the potential if any job can take a turn. -/
theorem Serving.round (h : Serving s₀ p s request) :
    Serving s₀ p s.round request ∧ s.round.tired = [] ∧ s.round.needs request ≤ s.needs request ∧
      (s.ready ≠ [] → s.round.needs request < s.needs request) := by
  have hagain : ∀ {t : Schedule}, Serving s₀ p t request →
      Serving s₀ p { t with ready := t.ready ++ t.tired, tired := [] } request ∧
        needs { t with ready := t.ready ++ t.tired, tired := [] } request = t.needs request := by
    intro t ht
    refine ⟨⟨ht.serves.round, ht.going.again⟩, ?_⟩
    unfold needs
    rw [potential_again]
    cases request <;> rfl
  obtain ⟨hturns, hle⟩ := h.takeTurns ha turns
  obtain ⟨hround, heq⟩ := hagain hturns
  refine ⟨hround, rfl, Nat.le_trans (Nat.le_of_eq heq) hle, ?_⟩
  intro hne
  obtain ⟨job, ready, hready⟩ := List.exists_cons_of_ne_nil hne
  obtain ⟨htake, hlt⟩ := h.take ha hready
  obtain ⟨-, hrest⟩ := htake.takeTurns ha 60
  have hturn : Schedule.takeTurns turns s =
      Schedule.takeTurns 60 (Schedule.take { s with ready } job) := by
    show Schedule.takeTurns 61 s = _
    rw [Schedule.takeTurns, hready]
  calc s.round.needs request
      = (Schedule.takeTurns turns s).needs request := heq
    _ = (Schedule.takeTurns 60 (Schedule.take { s with ready } job)).needs request := by rw [hturn]
    _ ≤ (Schedule.take { s with ready } job).needs request := hrest
    _ < s.needs request := hlt

omit ha in
/-- Something is reckoned for every request that has not ended. -/
theorem requestPotential_pos {ok : Wait → Prop} {n : Nat} (hp : request.rest.Within ok n)
    (hclaims : s.Claims request) (hgoes : ∀ a, request ≠ .ended a) :
    0 < s.requestPotential request := by
  cases hcan : s.canGoOn request with
  | true => exact Nat.zero_lt_of_lt (potential_request_lt hp hclaims hcan hgoes)
  | false =>
    cases request with
    | ended a => cases hcan
    | yields p locks => cases hcan
    | waits p =>
      have hover : isOver s.world p = false := hcan
      simp [requestPotential, hover]
    | lines p =>
      have hlocks : s.locks = false := hcan
      simp [requestPotential, hlocks]

omit ha in
/-- When nobody can take a turn, nobody stands in line: somebody who kept the
lock could take one. -/
theorem Going.line_eq_nil (hg : s.Going request) (hlocks : s.locks = false) (hready : s.ready = [])
    (htired : s.tired = []) : s.line = [] := by
  by_contra hline
  rcases hg.held hline with h | ⟨job, hj, -⟩
  · simp [hlocks] at h
  · rw [hready, htired] at hj
    cases hj

omit ha in
/-- When nobody can take a turn, the request is at a wait, and the lock is
open. -/
theorem Going.waits (hg : s.Going request) (hcan : s.canGoOn request = false)
    (hready : s.ready = []) (htired : s.tired = []) :
    s.line = [] ∧ ∃ q, request = .waits q ∧ q.wait?.isSome = true := by
  cases request with
  | ended a => cases hcan
  | yields p locks => cases hcan
  | waits p =>
    obtain ⟨hwaits, -, hlocks, -⟩ := hg.claims
    exact ⟨hg.line_eq_nil hlocks hready htired, p, rfl, hwaits⟩
  | lines p =>
    have hlocks : s.locks = false := hcan
    have hcount := hg.claims.2
    rw [hlocks, hg.line_eq_nil hlocks hready htired] at hcount
    cases hcount

omit ha in
/-- If the clock stands still, too, then nothing can happen any more. -/
theorem Going.stuck (hg : s.Going request) (hcan : s.canGoOn request = false)
    (hready : s.ready = []) (htired : s.tired = []) (hnext : s.next? request.rest = none) :
    s.Idle ∧ s.Stuck request.rest := by
  obtain ⟨-, q, rfl, hwaits⟩ := hg.waits hcan hready htired
  obtain ⟨-, -, hlocks, hcount⟩ := hg.claims
  exact ⟨⟨⟨hg.poised, hg.asleep, hg.held, hlocks, hcount⟩, htired⟩, hwaits, hcan, hready, hnext⟩

omit ha in
@[simp] theorem turn_tired (s : Schedule) (q : Process World α) : (s.turn q).2.tired = s.tired := by
  rw [turn_snd, rouse_eq]
  cases (q.turn World.signals s.left (s.access s.locks) s.world).outcome <;> simp [putRequest]

/-- How serving the request comes out. -/
def Comes (s₀ : Schedule) (p : Process World α) : Option α × Schedule → Prop
  | (some a, t) => Answers s₀ p a t ∧ t.Idle
  | (none, t) => ∃ q, Serves s₀ p q t ∧ t.Idle ∧ t.Stuck q

/-- **With fuel for everything that is needed, the request is answered or
nothing can happen any more.** -/
theorem attend_spec (fuel : Nat) : ∀ {s : Schedule} {request : Outcome World α},
    Serving s₀ p s request → s.tired = [] → (∀ a, request ≠ .ended a) →
      s.needs request ≤ fuel → Comes s₀ p (attend fuel request s) := by
  obtain ⟨n, hwithin⟩ := ha.within
  induction fuel with
  | zero =>
    intro s request h _ hgoes hfuel
    have hpos := requestPotential_pos (h.serves.within hwithin) h.going.claims hgoes
    unfold needs at hfuel
    omega
  | succ fuel ih =>
    intro s request h htired hgoes hfuel
    unfold attend
    split
    · next hcan =>
      obtain ⟨hgoing, hlt, hserving⟩ := h.turn ha hcan hgoes
      generalize hturn : s.turn request.rest = turn at hgoing hlt hserving
      obtain ⟨outcome, t⟩ := turn
      have htired' : t.tired = [] := by
        have ht : t = (s.turn request.rest).2 := by rw [hturn]
        rw [ht, turn_tired, htired]
      rcases outcome.ended_or_goes with ⟨a, rfl⟩ | hgoes'
      · exact ⟨⟨request.rest, s, h.serves, hturn⟩,
          ⟨hgoing.poised, hgoing.asleep, hgoing.held, hgoing.claims⟩, htired'⟩
      · obtain ⟨hround, htired'', hle, -⟩ := Serving.round ha (hserving hgoes')
        have hcomes := ih hround htired'' hgoes' (by omega)
        cases outcome with
        | ended a => exact absurd rfl (hgoes' a)
        | waits q => exact hcomes
        | yields q locks => exact hcomes
        | lines q => exact hcomes
    · next hcan =>
      rw [Bool.not_eq_true] at hcan
      split
      · next hready =>
        rw [List.isEmpty_iff] at hready
        cases hnext : s.next? request.rest with
        | none =>
          obtain ⟨hidle, hstuck⟩ := h.going.stuck hcan hready htired hnext
          exact ⟨request.rest, h.serves, hidle, hstuck⟩
        | some t =>
          have hlt := needs_setClock_lt h.going hcan hnext
          exact ih ⟨h.serves.clock t, h.going.setClock t⟩ htired hgoes (by omega)
      · next hready =>
        obtain ⟨hround, htired', -, hlt⟩ := h.round ha
        have := hlt (by simpa using hready)
        exact ih hround htired' hgoes (by omega)

omit ha in
/-- Before the request takes its first turn. -/
theorem Idle.going_yields (h : s.Idle) (q : Process World α) : s.Going (.yields q false) where
  poised := h.going.poised
  asleep := h.going.asleep
  held := h.going.held
  claims := ⟨h.going.claims.1, by simp, h.going.claims.2⟩

omit ha in
theorem Job.potential_le_stops {job : Job} {k : Nat} {w : World}
    (h : job.process.Within (Wait.CutBy k) job.stops) :
    job.potential w ≤ 3 * (job.stops + 1) ∧ job.idle ≤ 3 * (job.stops + 1) := by
  have hdepth := h.depth_le
  unfold Job.potential Job.idle
  constructor
  · split
    · omega
    · split <;> omega
  · omega

omit ha in
/-- What is reckoned for all jobs is not more than the schedule reckons with. -/
theorem potential_le_bound (hs : ∀ job ∈ s.jobs, job.Tame) : s.potential ≤ s.bound := by
  have hjobs : ∀ job ∈ s.ready ++ s.waiting ++ s.tired ++ s.line.filterMap id,
      job.potential s.world ≤ 3 * (job.stops + 1) ∧ job.idle ≤ 3 * (job.stops + 1) := by
    intro job hj
    obtain ⟨k, hk⟩ := (hs _ (Multiset.mem_map_of_mem _ (Multiset.mem_coe.mpr hj))).within
    exact Job.potential_le_stops hk
  have hbound : s.bound = ((s.ready ++ s.waiting ++ s.tired ++ s.line.filterMap id).map
      fun job => 3 * (job.stops + 1)).sum := by
    unfold bound
    rw [List.sum_eq_foldl, List.foldl_map]
  simp only [List.mem_append] at hjobs
  have hready : (s.ready.map (Job.potential s.world)).sum ≤
      (s.ready.map fun job => 3 * (job.stops + 1)).sum :=
    List.sum_le_sum fun job hj => (hjobs job (Or.inl (Or.inl (Or.inl hj)))).1
  have htired : (s.tired.map (Job.potential s.world)).sum ≤
      (s.tired.map fun job => 3 * (job.stops + 1)).sum :=
    List.sum_le_sum fun job hj => (hjobs job (Or.inl (Or.inr hj))).1
  have hwaiting : (s.waiting.map Job.idle).sum ≤
      (s.waiting.map fun job => 3 * (job.stops + 1)).sum :=
    List.sum_le_sum fun job hj => (hjobs job (Or.inl (Or.inl (Or.inr hj)))).2
  have hline : ((s.line.filterMap id).map Job.idle).sum ≤
      ((s.line.filterMap id).map fun job => 3 * (job.stops + 1)).sum :=
    List.sum_le_sum fun job hj => (hjobs job (Or.inr hj)).2
  rw [hbound]
  simp only [List.map_append, List.sum_append, potential]
  omega

/-- **What `serve` reckons with suffices.** -/
theorem serve_spec {stops : Nat} (hidle : s₀.Idle) (hstops : p.Within (fun _ => True) stops) :
    Comes s₀ p (s₀.serve stops p) := by
  refine attend_spec ha _ ⟨.start, hidle.going_yields p⟩ hidle.tired (by simp) ?_
  have hbound := potential_le_bound ha.tame
  have hdepth := hstops.depth_le
  have hrequest : s₀.requestPotential (.yields p false) ≤ 3 * p.depth + 3 := by
    simp only [requestPotential]
    split <;> omega
  unfold needs
  omega

end

end Schedule

end Automation
