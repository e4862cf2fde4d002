/-
Automation.Proofs.Http.SequenceTheorems — requests in a row.

If no request comes too late, each is served as if it were alone at the step
that decides its answer, and the requests can be put in the order of these
steps (`Arranged`). A request that is not decided has only looked, and would
have seen the same until now (`Plan.look_again`); one that is decided does not
touch the registry any more. When the requests are served in turn, nobody
comes too late (`timely_inTurn`).
-/
import Automation.Proofs.Http.BookTheorems

namespace Automation.Http

/-! ## Alone -/

/-- When a request takes its steps. -/
def instants {ι : Type} [DecidableEq ι] (i : ι) (moves : List (Move ι)) : List Nat :=
  (moves.filter (·.call = i)).map (·.instant)

namespace Plan

/-- What becomes of the registry and a plan that is carried out alone. -/
def alone : List Nat → Registry → Plan → Registry × Plan
  | [], r, x => (r, x)
  | now :: rest, r, x => alone rest (x.step now r).1 (x.step now r).2

theorem alone_append (times rest : List Nat) (r : Registry) (x : Plan) :
    alone (times ++ rest) r x = alone rest (alone times r x).1 (alone times r x).2 := by
  induction times generalizing r x with
  | nil => rfl
  | cons now times ih => exact ih _ _

/-- The answer is known, and the registry is not touched any more. -/
def decided : Plan → Bool
  | settle _ | answered _ => true
  | _ => false

/-- A decided plan takes its steps without regard to the registry. -/
theorem exists_alone_of_decided {x : Plan} (h : x.decided = true) (times : List Nat) :
    ∃ y, ∀ r, x.alone times r = (r, y) := by
  have hanswered : ∀ reply, ∀ times r, (answered reply).alone times r = (r, answered reply) := by
    intro reply times
    induction times with
    | nil => exact fun _ => rfl
    | cons now times ih => exact ih
  cases x with
  | answered reply => exact ⟨_, hanswered reply times⟩
  | settle reply =>
    cases times with
    | nil => exact ⟨_, fun _ => rfl⟩
    | cons now times => exact ⟨_, hanswered reply times⟩
  | _ => cases h

theorem decided_step {x : Plan} (h : x.decided = true) (now : Nat) :
    ∃ y, y.decided = true ∧ ∀ r, x.step now r = (r, y) := by
  cases x with
  | settle reply => exact ⟨answered reply, rfl, fun _ => rfl⟩
  | answered reply => exact ⟨answered reply, rfl, fun _ => rfl⟩
  | _ => cases h

/-- A step that does not decide is a look, and would have found the same later
on, as long as the id stays in use. -/
theorem look_again {x : Plan} {now : Nat} {r : Registry} (h : (x.step now r).2.decided = false) :
    (x.step now r).1 = r ∧ x.id? = none ∧ ∀ r', (∀ id ∈ (x.step now r).2.id?, r'.has id = true) →
      x.step now r' = (r', (x.step now r).2) := by
  cases x with
  | read next => exact ⟨rfl, rfl, fun _ _ => rfl⟩
  | create w created used =>
    simp only [step] at h
    split at h <;> cases h
  | check id absent present =>
    simp only [step] at h
    split at h <;> cases h
  | look e absent present =>
    simp only [step] at h ⊢
    split at h
    · next hhas =>
      rw [if_pos hhas]
      refine ⟨trivial, rfl, fun r' hr' => ?_⟩
      have hhas' : (r'.get? e.id).isSome = true := hr' e.id rfl
      rw [if_pos hhas']
    · cases h
  | _ => cases h

end Plan

namespace Docket

variable {ι : Type} [DecidableEq ι]

/-- The steps of one request in a row. -/
theorem run_filter (d : Docket ι) (i : ι) (moves : List (Move ι)) :
    d.run (moves.filter (·.call = i)) =
      ⟨((d.plans i).alone (instants i moves) d.registry).1,
        Function.update d.plans i ((d.plans i).alone (instants i moves) d.registry).2⟩ := by
  induction moves generalizing d with
  | nil => simp [instants, Plan.alone]
  | cons m rest ih =>
    by_cases hi : m.call = i
    · subst hi
      simp [instants, Plan.alone, ih, Docket.move]
    · simpa [instants, hi] using ih d

theorem inTurn_append (order : List ι) (i : ι) (moves : List (Move ι)) :
    inTurn (order ++ [i]) moves = inTurn order moves ++ moves.filter (·.call = i) := by
  simp [inTurn]

/-- Who is not served keeps its plan. -/
theorem plans_inTurn_of_not_mem (d : Docket ι) {order : List ι} {i : ι} (h : i ∉ order)
    (moves : List (Move ι)) : (d.run (inTurn order moves)).plans i = d.plans i := by
  induction order generalizing d with
  | nil => rfl
  | cons j order ih =>
    obtain ⟨hj, horder⟩ := not_or.mp (mt List.mem_cons.mpr h)
    have hturn : inTurn (j :: order) moves = moves.filter (·.call = j) ++ inTurn order moves := rfl
    rw [hturn, run_append, ih _ horder, run_filter]
    exact Function.update_of_ne hj _ _

/-- One more request is served. -/
theorem serve_next (d : Docket ι) {order : List ι} {i : ι} (h : i ∉ order) {moves : List (Move ι)}
    {r : Registry} {y : Plan}
    (halone : (d.plans i).alone (instants i moves) (d.run (inTurn order moves)).registry = (r, y)) :
    (d.run (inTurn (order ++ [i]) moves)).registry = r ∧
      (d.run (inTurn (order ++ [i]) moves)).plans i = y ∧
      ∀ j ≠ i, (d.run (inTurn (order ++ [i]) moves)).plans j =
        (d.run (inTurn order moves)).plans j := by
  rw [inTurn_append, run_append, run_filter, d.plans_inTurn_of_not_mem h, halone]
  exact ⟨rfl, Function.update_self .., fun j hj => Function.update_of_ne hj ..⟩

/-! ## The order of the decisions -/

/-- The requests of the order, served in turn, have brought the registry to
where it is, and their answers are known. All others can still be served at
any time at which the ids they count on are in use: they would have seen what
they have seen. -/
structure Arranged (d : Docket ι) (past future : List (Move ι)) (order : List ι) : Prop where
  nodup : order.Nodup
  registry : (d.run (inTurn order (past ++ future))).registry = (d.run past).registry
  served : ∀ i ∈ order, ((d.run past).plans i).decided = true ∧
    ∀ r, ((d.run past).plans i).alone (instants i future) r =
      (r, (d.run (inTurn order (past ++ future))).plans i)
  waiting : ∀ i ∉ order, ∀ r, (∀ id ∈ ((d.run past).plans i).id?, r.has id = true) →
    (d.plans i).alone (instants i past) r = (r, (d.run past).plans i)

variable {d : Docket ι} {past future : List (Move ι)} {order : List ι}

theorem arranged_nil (d : Docket ι) (moves : List (Move ι)) : d.Arranged [] moves [] where
  nodup := List.nodup_nil
  registry := rfl
  served := fun _ h => by cases h
  waiting := fun _ _ _ _ => rfl

theorem instants_append (i : ι) (moves rest : List (Move ι)) :
    instants i (moves ++ rest) = instants i moves ++ instants i rest := by
  simp [instants]

theorem instants_of_ne {i : ι} {m : Move ι} (h : i ≠ m.call) (moves : List (Move ι)) :
    instants i (m :: moves) = instants i moves := by
  simp [instants, Ne.symm h]

theorem instants_own (m : Move ι) (moves : List (Move ι)) :
    instants m.call (m :: moves) = m.instant :: instants m.call moves := by
  simp [instants]

/-- Who does not take the step waits on. -/
theorem Arranged.waits_on {m : Move ι} (h : d.Arranged past (m :: future) order) {i : ι}
    (hi : i ∉ order) (hne : i ≠ m.call) {r : Registry}
    (hr : ∀ id ∈ (((d.run past).move m).plans i).id?, r.has id = true) :
    (d.plans i).alone (instants i (past ++ [m])) r = (r, ((d.run past).move m).plans i) := by
  rw [plans_move_of_ne hne] at hr ⊢
  rw [instants_append, show instants i [m] = [] from instants_of_ne hne [], List.append_nil]
  exact h.waiting i hi r hr

/-- A step of a request that is served already changes nothing. -/
theorem Arranged.move_served {m : Move ι} (h : d.Arranged past (m :: future) order)
    (hmem : m.call ∈ order) : d.Arranged (past ++ [m]) future order := by
  obtain ⟨hdecided, halone⟩ := h.served m.call hmem
  obtain ⟨y, hy, hstep⟩ := Plan.decided_step hdecided m.instant
  have hrun : d.run (past ++ [m]) = (d.run past).move m := by simp [run_append]
  have hregistry : ((d.run past).move m).registry = (d.run past).registry := by simp [hstep]
  have hown : ((d.run past).move m).plans m.call = y := by simp [hstep]
  have hsplit : past ++ [m] ++ future = past ++ m :: future := by simp
  refine ⟨h.nodup, ?_, ?_, ?_⟩
  · rw [hsplit, h.registry, hrun, hregistry]
  · intro i hi
    rw [hsplit, hrun]
    by_cases hne : i = m.call
    · subst hne
      refine ⟨hown ▸ hy, fun r => ?_⟩
      have hr := halone r
      rwa [instants_own, Plan.alone, hstep, ← hown] at hr
    · have hi := h.served i hi
      rwa [instants_of_ne hne, ← plans_move_of_ne hne] at hi
  · intro i hi r hr
    have hne : i ≠ m.call := by
      rintro rfl
      exact hi hmem
    rw [hrun] at hr ⊢
    exact h.waits_on hi hne hr

/-- A step that does not decide leaves the order as it is: it would have seen the same
until now. -/
theorem Arranged.move_undecided {m : Move ι} (h : d.Arranged past (m :: future) order)
    (hmem : m.call ∉ order)
    (hdecided : (((d.run past).plans m.call).step m.instant (d.run past).registry).2.decided =
      false) : d.Arranged (past ++ [m]) future order := by
  have hrun : d.run (past ++ [m]) = (d.run past).move m := by simp [run_append]
  have hsplit : past ++ [m] ++ future = past ++ m :: future := by simp
  have hinstants : instants m.call [m] = [m.instant] := instants_own m []
  obtain ⟨hsame, hnone, hagain⟩ := Plan.look_again hdecided
  have hregistry : ((d.run past).move m).registry = (d.run past).registry := hsame
  refine ⟨h.nodup, ?_, ?_, ?_⟩
  · rw [hsplit, h.registry, hrun, hregistry]
  · intro i hi
    have hne : i ≠ m.call := by
      rintro rfl
      exact hmem hi
    have hserved := h.served i hi
    rwa [instants_of_ne hne, ← plans_move_of_ne hne, ← hrun, ← hsplit] at hserved
  · intro i hi r hr
    rw [hrun] at hr ⊢
    by_cases hne : i = m.call
    · subst hne
      rw [plans_move_self] at hr ⊢
      have hpast := h.waiting m.call hmem r (by simp [hnone])
      rw [instants_append, Plan.alone_append, hpast, hinstants]
      simp only [Plan.alone, hagain r hr]
    · exact h.waits_on hi hne hr

/-- A step that decides is the next one in the order. -/
theorem Arranged.move_decided {m : Move ι} (h : d.Arranged past (m :: future) order)
    (hmem : m.call ∉ order)
    (hready : ∀ id ∈ ((d.run past).plans m.call).id?, (d.run past).registry.has id = true)
    (hdecided : (((d.run past).plans m.call).step m.instant (d.run past).registry).2.decided =
      true) : d.Arranged (past ++ [m]) future (order ++ [m.call]) := by
  have hrun : d.run (past ++ [m]) = (d.run past).move m := by simp [run_append]
  have hsplit : past ++ [m] ++ future = past ++ m :: future := by simp
  obtain ⟨y, hy⟩ := Plan.exists_alone_of_decided hdecided (instants m.call future)
  have halone : (d.plans m.call).alone (instants m.call (past ++ m :: future))
      (d.run (inTurn order (past ++ m :: future))).registry =
        (((d.run past).move m).registry, y) := by
    rw [h.registry, instants_append, Plan.alone_append, h.waiting m.call hmem _ hready, instants_own,
      Plan.alone]
    exact hy _
  obtain ⟨hregistry, hserved, hrest⟩ := d.serve_next hmem halone
  refine ⟨by simpa using h.nodup.concat hmem, ?_, ?_, ?_⟩
  · rw [hsplit, hregistry, hrun]
  · intro i hi
    rw [hsplit, hrun]
    by_cases hne : i = m.call
    · subst hne
      rw [plans_move_self, hserved]
      exact ⟨hdecided, hy⟩
    · have hi := h.served i (by simpa [hne] using hi)
      rw [hrest i hne]
      rwa [instants_of_ne hne, ← plans_move_of_ne hne] at hi
  · intro i hi r hr
    obtain ⟨hi, hne⟩ : i ∉ order ∧ i ≠ m.call := by simpa using hi
    rw [hrun] at hr ⊢
    exact h.waits_on hi hne hr

/-- A step that is not too late can be arranged with those before it. -/
theorem Arranged.move_waiting {m : Move ι} (h : d.Arranged past (m :: future) order)
    (hmem : m.call ∉ order)
    (hready : ∀ id ∈ ((d.run past).plans m.call).id?, (d.run past).registry.has id = true) :
    ∃ order', d.Arranged (past ++ [m]) future order' := by
  cases hdecided : (((d.run past).plans m.call).step m.instant (d.run past).registry).2.decided with
  | false => exact ⟨order, h.move_undecided hmem hdecided⟩
  | true => exact ⟨order ++ [m.call], h.move_decided hmem hready hdecided⟩

/-- The requests of a timely run can be arranged. -/
theorem Arranged.run (h : d.Arranged past future order) (htimely : (d.run past).Timely future) :
    ∃ order', d.Arranged (past ++ future) [] order' := by
  induction future generalizing past order with
  | nil => exact ⟨order, by simpa using h⟩
  | cons m future ih =>
    obtain ⟨hready, hrest⟩ := htimely
    have hrun : d.run (past ++ [m]) = (d.run past).move m := by simp [run_append]
    obtain ⟨order', h'⟩ : ∃ order', d.Arranged (past ++ [m]) future order' := by
      by_cases hmem : m.call ∈ order
      · exact ⟨order, h.move_served hmem⟩
      · exact h.move_waiting hmem hready
    have hall := ih h' (hrun ▸ hrest)
    rwa [List.append_assoc] at hall

/-- At the end all requests that are decided can be served in turn. -/
theorem Arranged.complete (h : d.Arranged past [] order)
    (hdecided : ∀ i, ((d.run past).plans i).decided = true) (l : List ι) :
    ∃ order', d.Arranged past [] order' ∧ ∀ i ∈ l, i ∈ order' := by
  induction l with
  | nil => exact ⟨order, h, fun _ hi => by cases hi⟩
  | cons j l ih =>
    obtain ⟨order', h', hl⟩ := ih
    by_cases hj : j ∈ order'
    · exact ⟨order', h', List.forall_mem_cons.mpr ⟨hj, hl⟩⟩
    have hnone : ((d.run past).plans j).id? = none := by
      have hj := hdecided j
      cases hplan : (d.run past).plans j with
      | exchange e reply =>
        rw [hplan] at hj
        cases hj
      | _ => rfl
    have hsplit : past ++ [] = past := List.append_nil past
    have hbefore := h'.registry
    rw [hsplit] at hbefore
    obtain ⟨hregistry, hserved, hrest⟩ :=
      d.serve_next hj (h'.waiting j hj _ (by simp [hnone]))
    refine ⟨order' ++ [j], ⟨by simpa using h'.nodup.concat hj, ?_, ?_, ?_⟩, ?_⟩
    · rw [hsplit, hregistry, hbefore]
    · intro i hi
      refine ⟨hdecided i, fun r => ?_⟩
      rw [hsplit]
      by_cases hne : i = j
      · subst hne
        rw [hserved]
        rfl
      · have hi := (h'.served i (by simpa [hne] using hi)).2 r
        rwa [hsplit, ← hrest i hne] at hi
    · intro i hi r hr
      exact h'.waiting i (by simp_all) r hr
    · exact List.forall_mem_cons.mpr ⟨by simp, fun i hi => by simp [hl i hi]⟩

/-- **The requests of a timely run can be put in a row**: served one after the
other, they get the same answers and leave the same registry. -/
theorem exists_order_of_timely [Fintype ι] {moves : List (Move ι)} (htimely : d.Timely moves)
    (hdecided : ∀ i, ((d.run moves).plans i).decided = true) :
    ∃ order : List ι, order.Nodup ∧ (∀ i, i ∈ order) ∧
      d.run (inTurn order moves) = d.run moves := by
  obtain ⟨order, h⟩ := (d.arranged_nil moves).run htimely
  obtain ⟨order, h, hall⟩ := h.complete hdecided Finset.univ.toList
  have hmem : ∀ i, i ∈ order := fun i => hall i (by simp)
  refine ⟨order, h.nodup, hmem, ?_⟩
  have hregistry := h.registry
  have hplans : (d.run (inTurn order moves)).plans = (d.run moves).plans := by
    funext i
    have hserved := (h.served i (hmem i)).2 {}
    simpa [instants, Plan.alone] using (Prod.mk.inj hserved).2.symm
  simp only [List.nil_append, List.append_nil] at hregistry
  cases hturn : d.run (inTurn order moves)
  cases hrun : d.run moves
  simp_all

/-! ## Rows -/

variable {requests : ι → Request}

/-- Nobody comes too late in a row of its own. -/
theorem timely_filter (h : d.Sound requests) {i : ι}
    (hready : ∀ id ∈ (d.plans i).id?, d.registry.has id = true) (moves : List (Move ι)) :
    d.Timely (moves.filter (·.call = i)) := by
  induction moves generalizing d with
  | nil => trivial
  | cons m rest ih =>
    by_cases hi : m.call = i
    · subst hi
      rw [List.filter_cons_of_pos (by simp)]
      refine ⟨hready, ih h.move ?_⟩
      rw [plans_move_self]
      exact (h m.call).ready
    · rw [List.filter_cons_of_neg (by simpa using hi)]
      exact ih h hready

theorem Sound.run (h : d.Sound requests) (moves : List (Move ι)) :
    (d.run moves).Sound requests := by
  induction moves generalizing d with
  | nil => exact h
  | cons m rest ih => exact ih h.move

/-- **Nobody comes too late when the requests are served in turn.** -/
theorem timely_inTurn (h : d.Sound requests) {order : List ι} (hnodup : order.Nodup)
    (hopen : ∀ i ∈ order, (d.plans i).id? = none) (moves : List (Move ι)) :
    d.Timely (inTurn order moves) := by
  induction order generalizing d with
  | nil => trivial
  | cons i order ih =>
    obtain ⟨hi, hnodup⟩ := List.nodup_cons.mp hnodup
    obtain ⟨hnone, hopen⟩ := List.forall_mem_cons.mp hopen
    refine timely_append.mpr ⟨timely_filter h (by simp [hnone]) moves, ih (h.run _) hnodup ?_⟩
    intro j hj
    have hne : j ≠ i := by
      rintro rfl
      exact hi hj
    rw [run_filter]
    simpa [hne] using hopen j hj

end Docket

end Automation.Http
