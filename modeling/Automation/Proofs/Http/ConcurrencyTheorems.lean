/-
Automation.Proofs.Http.ConcurrencyTheorems — what comes of requests that write
at the same time.

Every request is answered after three steps of its own, whatever the others
do. When all are answered, they can be put in a row if and only if the books
balance (`isSequential_iff_balanced`). Creating looks and exchanges at once,
so without deletions the books always balance; with them they may not:
replacing a workflow may bring it back after it was deleted, and both of two
deletions may succeed (`not_always_sequential`).
-/
import Mathlib.Algebra.BigOperators.Ring.Finset
import Mathlib.Data.Fintype.Card
import Mathlib.Tactic.FinCases
import Automation.Proofs.Http.SequenceTheorems

namespace Automation.Http

namespace Docket

variable {ι : Type} [DecidableEq ι] {requests : ι → Request} {d : Docket ι}

/-! ## Without deletions -/

/-- What is there stays, unless somebody asks to delete it. -/
theorem has_move (h : d.Sound requests) {id : String}
    (hdeletes : ∀ i, (requests i).deletes id = false) (m : Move ι)
    (hhas : d.registry.has id = true) : (d.move m).registry.has id = true := by
  have hgoes := h m.call
  rw [registry_move]
  cases hplan : d.plans m.call with
  | create w created used =>
    simp only [Plan.step]
    split
    · exact hhas
    · simp [Registry.has_put, hhas]
  | exchange e reply =>
    rw [hplan] at hgoes
    cases e with
    | put w => simp [Plan.step, Exchange.apply, Registry.has_put, hhas]
    | drop id' =>
      have hne : id' ≠ id := by
        have hfalse := hdeletes m.call
        rw [hgoes.2 id] at hfalse
        simpa using hfalse
      simp [Plan.step, Exchange.apply, Registry.has_drop, hhas, hne]
  | _ => exact hhas

/-- **Without deletions nobody comes too late.** -/
theorem timely_of_no_deletes (h : d.Sound requests)
    (hdeletes : ∀ i id, (requests i).deletes id = false)
    (hready : ∀ i, ∀ id ∈ (d.plans i).id?, d.registry.has id = true) (moves : List (Move ι)) :
    d.Timely moves := by
  induction moves generalizing d with
  | nil => trivial
  | cons m rest ih =>
    refine ⟨hready m.call, ih h.move ?_⟩
    refine forall_plans_move (fun _ x => ∀ id ∈ x.id?, (d.move m).registry.has id = true)
      (h m.call).ready fun i _ id hid => ?_
    exact has_move h (fun i => hdeletes i id) m (hready i id hid)

end Docket

namespace Plan

/-- The plan adds a workflow of this id, unless there is one. -/
def Adds (id : String) : Plan → Prop
  | read next => ∀ now, (next now).Adds id
  | create w _ _ => w.id = id
  | _ => False

theorem Adds.step {id : String} {x : Plan} (h : x.Adds id) (now : Nat) (r : Registry) :
    (x.step now r).2.Adds id ∨ (x.step now r).1.has id = true := by
  cases x with
  | read next => exact .inl (h now)
  | create w created used =>
    have hid : w.id = id := h
    refine .inr ?_
    simp only [Plan.step]
    split
    · next hhas => exact hid ▸ hhas
    · simp [Registry.has_put, hid]
  | _ => exact h.elim

theorem opening_adds {r : Request} {w : Workflow} (hoffer : r.offer? = some w)
    (hid : Text.isAllBlank w.id = false) (hvalid : w.isValid = true) : (opening r).Adds w.id := by
  obtain ⟨hoperation, -⟩ := Request.read_of_offer? hoffer 0
  unfold opening
  rw [hoperation]
  intro now
  obtain ⟨-, v, hread, hv, hsame⟩ := Request.read_of_offer? hoffer now
  dsimp only
  rw [hread, creating, hv, hid, hsame, hvalid]
  exact hv

/-- The plan takes the workflow of this id out. -/
def Removes (id : String) : Plan → Prop
  | look (.drop id') _ _ | exchange (.drop id') _ => id' = id
  | _ => False

theorem opening_removes {r : Request} {id : String} (h : r.deletes id = true) :
    (opening r).Removes id := by
  obtain ⟨name, hoperation, hname⟩ := Request.deletes_iff.mp h
  rw [opening_of_delete hoperation hname]
  rfl

/-- A step of such a plan leads on, or to an answer, and then there is no
workflow of this id. -/
theorem Removes.step {id : String} {x : Plan} (h : x.Removes id) (now : Nat) (r : Registry) :
    (x.step now r).2.Removes id ∧ (x.step now r).1 = r ∨
      (∃ reply, (x.step now r).2 = answered reply) ∧ (x.step now r).1.has id = false := by
  cases x with
  | look e absent present =>
    cases e with
    | put w => exact h.elim
    | drop id' =>
      obtain rfl : id' = id := h
      simp only [Plan.step]
      split
      · exact .inl ⟨rfl, trivial⟩
      · next hnone => exact .inr ⟨⟨absent, rfl⟩, by simpa [Registry.has, Exchange.id] using hnone⟩
  | exchange e reply =>
    cases e with
    | put w => exact h.elim
    | drop id' =>
      obtain rfl : id' = id := h
      exact .inr ⟨⟨reply, rfl⟩, by simp [Plan.step, Exchange.apply, Registry.has_drop]⟩
  | _ => exact h.elim

/-- The number of steps that a plan takes at most. -/
def Within : Nat → Plan → Prop
  | _, answered _ => True
  | n, read next => 0 < n ∧ ∀ now, (next now).Within (n - 1)
  | n, check _ _ _ | n, look _ _ _ => 2 ≤ n
  | n, create _ _ _ | n, exchange _ _ | n, settle _ => 1 ≤ n

theorem Within.mono {x : Plan} {n k : Nat} (h : x.Within n) (hle : n ≤ k) : x.Within k := by
  induction x generalizing n k with
  | read next ih => exact ⟨lt_of_lt_of_le h.1 hle, fun now => ih now (h.2 now) (by omega)⟩
  | answered reply => cases k <;> trivial
  | _ => exact le_trans h hle

theorem Within.step {x : Plan} {n : Nat} (h : x.Within (n + 1)) (now : Nat) (r : Registry) :
    (x.step now r).2.Within n := by
  have hdone : ∀ reply, (answered reply).Within n := fun reply => by cases n <;> trivial
  cases x with
  | read next => exact h.2 now
  | create w created used =>
    simp only [Plan.step]
    split <;> exact hdone _
  | check id absent present =>
    have hn : 2 ≤ n + 1 := h
    simp only [Plan.step]
    split
    · show 1 ≤ n
      omega
    · exact hdone _
  | look e absent present =>
    have hn : 2 ≤ n + 1 := h
    simp only [Plan.step]
    split
    · show 1 ≤ n
      omega
    · exact hdone _
  | _ => exact hdone _

theorem Within.answered {x : Plan} (h : x.Within 0) : ∃ reply, x = .answered reply := by
  cases x with
  | answered reply => exact ⟨reply, rfl⟩
  | _ => simp [Within] at h

theorem creating_within (result : Except Rejection Workflow) : (creating result).Within 2 := by
  unfold creating
  split
  · trivial
  split
  · trivial
  split <;> exact (by decide : 1 ≤ 2)

theorem replacing_within (id : String) (result : Except Rejection Workflow) :
    (replacing id result).Within 2 := by
  unfold replacing
  split
  · trivial
  dsimp only
  split <;> exact le_refl 2

/-- Three steps are enough: to read the body, to look, and to exchange. -/
theorem opening_within (r : Request) : (opening r).Within 3 := by
  unfold opening
  split
  · exact ⟨by decide, fun now => creating_within _⟩
  · split
    · trivial
    · exact ⟨by decide, fun now => replacing_within _ _⟩
  · split
    · trivial
    · exact (by decide : 2 ≤ 3)
  · trivial

end Plan

namespace Docket

variable {ι : Type} [DecidableEq ι] {requests : ι → Request} {d : Docket ι}

/-- **Every request is answered** after its own steps, whatever the others do. -/
theorem answered_of_within {moves : List (Move ι)}
    (h : ∀ i, (d.plans i).Within (moves.countP (·.call = i))) (i : ι) :
    ∃ reply, (d.run moves).plans i = .answered reply := by
  induction moves generalizing d with
  | nil => exact (h i).answered
  | cons m rest ih =>
    refine ih fun j => ?_
    by_cases hj : j = m.call
    · subst hj
      have hown := h m.call
      rw [List.countP_cons_of_pos (by simp)] at hown
      rw [plans_move_self]
      exact hown.step m.instant d.registry
    · have hother := h j
      rw [List.countP_cons_of_neg (by simpa using Ne.symm hj)] at hother
      rwa [plans_move_of_ne hj]

/-- When all plans add a workflow of this id, there is one as soon as somebody
is answered. -/
theorem has_of_adds (h : d.Sound requests) {id : String}
    (hdeletes : ∀ i, (requests i).deletes id = false)
    (hadds : (∀ i, (d.plans i).Adds id) ∨ d.registry.has id = true) (moves : List (Move ι)) :
    (∀ i, ((d.run moves).plans i).Adds id) ∨ (d.run moves).registry.has id = true := by
  induction moves generalizing d with
  | nil => exact hadds
  | cons m rest ih =>
    refine ih h.move ?_
    obtain hadds | hhas := hadds
    · obtain hown | hhas := (hadds m.call).step m.instant d.registry
      · exact .inl (forall_plans_move (fun _ x => x.Adds id) hown fun i _ => hadds i)
      · exact .inr hhas
    · exact .inr (has_move h hdeletes m hhas)

/-- When all plans take out the workflow of this id, it is gone as soon as
somebody is answered. -/
theorem gone_of_removes {id : String} (h : (∀ i, (d.plans i).Removes id) ∨
    d.registry.has id = false ∧
      ∀ i, (d.plans i).Removes id ∨ ∃ reply, d.plans i = .answered reply) (moves : List (Move ι)) :
    (∀ i, ((d.run moves).plans i).Removes id) ∨ (d.run moves).registry.has id = false := by
  induction moves generalizing d with
  | nil => exact h.imp_right And.left
  | cons m rest ih =>
    refine ih ?_
    have hall := forall_plans_move (d := d) (m := m) fun _ x =>
      x.Removes id ∨ ∃ reply, x = .answered reply
    obtain hremoves | ⟨hgone, hplans⟩ := h
    · obtain ⟨hnext, -⟩ | ⟨hanswered, hnone⟩ := (hremoves m.call).step m.instant d.registry
      · exact .inl (forall_plans_move (fun _ x => x.Removes id) hnext fun i _ => hremoves i)
      · exact .inr ⟨hnone, hall (.inr hanswered) fun i _ => .inl (hremoves i)⟩
    · obtain hremoves | ⟨reply, hanswered⟩ := hplans m.call
      · obtain ⟨hnext, hsame⟩ | ⟨hanswered, hnone⟩ := hremoves.step m.instant d.registry
        · exact .inr ⟨(congrArg (·.has id) hsame).trans hgone,
            hall (.inl hnext) fun i _ => hplans i⟩
        · exact .inr ⟨hnone, hall (.inr hanswered) fun i _ => hplans i⟩
      · have hstep : (d.plans m.call).step m.instant d.registry =
            (d.registry, .answered reply) := by rw [hanswered, Plan.step]
        refine .inr ⟨by rw [registry_move, hstep, hgone], hall ?_ fun i _ => hplans i⟩
        exact .inr ⟨reply, congrArg Prod.snd hstep⟩

end Docket

/-! ## Answers -/

theorem Request.deletes_of_offer? {r : Request} {w : Workflow} (h : r.offer? = some w)
    (id : String) : r.deletes id = false := by
  obtain ⟨hoperation, -⟩ := Request.read_of_offer? h 0
  simp [Request.deletes, hoperation]

theorem Request.creates_of_deletes {r : Request} {id : String} (h : r.deletes id = true)
    (id' : String) : r.creates id' = false := by
  obtain ⟨name, hoperation, -⟩ := Request.deletes_iff.mp h
  simp only [Request.creates, Request.offer?, hoperation, Option.any_none]

namespace Traffic

open App (creation creation_read creation_created usual)

variable {ι : Type} [Fintype ι]

/-- How many of the requests that ask for something were answered so. -/
def answered (t : Traffic ι) (asks : ι → Bool) (status : Nat) : Nat :=
  (Finset.univ.filter fun i => asks i = true ∧ t.status? i = some status).card

/-- The books on an id balance: what is there and what was taken out by the
answers is what was there before and what was created by them. -/
def Balanced (requests : ι → Request) (before : Registry) (t : Traffic ι) (id : String) : Prop :=
  (t.world.registry.has id).toNat + t.answered (fun i => (requests i).deletes id) 200 =
    (before.has id).toNat + t.answered (fun i => (requests i).creates id) 201

variable {requests : ι → Request} {t : Traffic ι} {d : Docket ι}

/-- The books, as the docket keeps them. -/
theorem Follows.balance (h : t.Follows requests d) (id : String) :
    d.balance requests id = (t.world.registry.has id).toNat +
      t.answered (fun i => (requests i).deletes id) 200 -
      t.answered (fun i => (requests i).creates id) 201 := by
  have hweight : ∀ i, (d.plans i).weight (requests i) id =
      (if (requests i).deletes id = true ∧ t.status? i = some 200 then 1 else 0) -
        if (requests i).creates id = true ∧ t.status? i = some 201 then 1 else 0 := by
    intro i
    rw [h.status?]
    cases d.plans i <;> simp [Plan.weight, Plan.reply?]
  rw [Docket.balance, Finset.sum_congr rfl fun i _ => hweight i, Finset.sum_sub_distrib, h.registry,
    answered, answered, Finset.natCast_card_filter, Finset.natCast_card_filter]
  omega

theorem Follows.balanced_iff (h : t.Follows requests d) (registry : Registry) (id : String) :
    t.Balanced requests registry id ↔
      d.balance requests id = (Docket.start registry requests).balance requests id := by
  rw [h.balance, Docket.balance_start, Balanced]
  omega

variable [DecidableEq ι]

/-- The requests get the answers, and leave the registry, that they would if
they were served one after the other in some order. -/
def IsSequential (app : App) (world : World) (requests : ι → Request) (moves : List (Move ι)) :
    Prop :=
  ∃ order : List ι, order.Nodup ∧ (∀ i, i ∈ order) ∧
    let s := start app world requests
    (s.run (inTurn order moves)).status? = (s.run moves).status? ∧
      (s.run (inTurn order moves)).world.registry = (s.run moves).world.registry

/-- What is true of requests that write at the same time, when they all are
answered. -/
structure Orderly (app : App) (world : World) (requests : ι → Request) (moves : List (Move ι))
    (t : Traffic ι) : Prop where
  /-- The books tell whether the requests can be put in a row. -/
  sequential_iff : IsSequential app world requests moves ↔
    ∀ id, t.Balanced requests world.registry id
  /-- It takes a deletion for them not to. -/
  undeleted : (∀ i id, (requests i).deletes id = false) → IsSequential app world requests moves
  /-- Of valid creations of an id that is free exactly one succeeds. -/
  created : ∀ id, world.registry.has id = false → Text.isAllBlank id = false →
    (∀ i, ∃ w, (requests i).offer? = some w ∧ w.id = id ∧ w.isValid = true) →
    Nonempty ι → ∃! i, t.status? i = some 201
  /-- Of deletions of an id in use some succeed; exactly one does, if they can be
  put in a row. -/
  deleted : ∀ id, world.registry.has id = true → (∀ i, (requests i).deletes id = true) →
    Nonempty ι → (∃ i, t.status? i = some 200) ∧
      (IsSequential app world requests moves → ∃! i, t.status? i = some 200)
  /-- What was deleted and not created again is gone, if they can be put in a row. -/
  gone : IsSequential app world requests moves → ∀ id, (∀ i, (requests i).creates id = false) →
    (∃ i, (requests i).deletes id = true ∧ t.status? i = some 200) →
    t.world.registry.has id = false

variable {app : App} {world : World} {moves : List (Move ι)}

/-- What the docket puts in a row can be put in a row. -/
theorem isSequential_of_timely (hwrites : ∀ i, (requests i).writes = true)
    (hended : ((start app world requests).run moves).Ended)
    (h : (Docket.start world.registry requests).Timely moves) :
    IsSequential app world requests moves := by
  have hfollows := follows_start app world hwrites
  obtain ⟨order, hnodup, hmem, hrun⟩ := Docket.exists_order_of_timely h fun i => by
    obtain ⟨reply, hreply⟩ := (hfollows.run moves).answered_of_ended hended i
    rw [hreply]
    rfl
  have hturn := hfollows.run (inTurn order moves)
  rw [hrun] at hturn
  refine ⟨order, hnodup, hmem, funext fun i => ?_, ?_⟩
  · rw [hturn.status?, (hfollows.run moves).status?]
  · rw [hturn.registry, (hfollows.run moves).registry]

/-- When they are served one after the other, the books balance. -/
theorem balanced_of_isSequential (hwrites : ∀ i, (requests i).writes = true)
    (h : IsSequential app world requests moves) (id : String) :
    ((start app world requests).run moves).Balanced requests world.registry id := by
  obtain ⟨order, hnodup, -, hstatus, hregistry⟩ := h
  have hsound := Docket.sound_start world.registry requests
  have htimely := Docket.timely_inTurn hsound hnodup
    (fun i _ => (Docket.opens_start world.registry requests i).id?) moves
  have hturn := (follows_start app world hwrites).run (inTurn order moves)
  have hbalanced := (hturn.balanced_iff world.registry id).mpr ((hsound.timely_iff _).mp htimely id)
  simpa only [Balanced, answered, hstatus, hregistry] using hbalanced

section

variable (hwrites : ∀ i, (requests i).writes = true)
  (hended : ((start app world requests).run moves).Ended)

include hwrites hended

theorem isSequential_iff_balanced : IsSequential app world requests moves ↔
    ∀ id, ((start app world requests).run moves).Balanced requests world.registry id := by
  refine ⟨fun h id => balanced_of_isSequential hwrites h id, fun h => ?_⟩
  have hfollows := (follows_start app world hwrites).run moves
  refine isSequential_of_timely hwrites hended ((Docket.sound_start _ _).timely_iff moves |>.mpr ?_)
  exact fun id => (hfollows.balanced_iff _ id).mp (h id)

theorem isSequential_of_undeleted (hdeletes : ∀ i id, (requests i).deletes id = false) :
    IsSequential app world requests moves := by
  refine isSequential_of_timely hwrites hended ?_
  refine Docket.timely_of_no_deletes (Docket.sound_start _ _) hdeletes (fun i id hid => ?_) moves
  rw [(Docket.opens_start world.registry requests i).id?] at hid
  cases hid

variable {id : String}

theorem existsUnique_created [Nonempty ι] (hfree : world.registry.has id = false)
    (hid : Text.isAllBlank id = false)
    (hoffers : ∀ i, ∃ w, (requests i).offer? = some w ∧ w.id = id ∧ w.isValid = true) :
    ∃! i, ((start app world requests).run moves).status? i = some 201 := by
  have hfollows := (follows_start app world hwrites).run moves
  have hdeletes : ∀ i id, (requests i).deletes id = false := by
    intro i
    obtain ⟨w, hoffer, -⟩ := hoffers i
    exact Request.deletes_of_offer? hoffer
  have hcreates : ∀ i, (requests i).creates id = true := by
    intro i
    obtain ⟨w, hoffer, heq, -⟩ := hoffers i
    simp [Request.creates, hoffer, heq]
  have hadds : ∀ i, ((Docket.start world.registry requests).plans i).Adds id := by
    intro i
    obtain ⟨w, hoffer, rfl, hvalid⟩ := hoffers i
    rw [Docket.plans_start]
    exact Plan.opening_adds hoffer hid hvalid
  have hhas : ((start app world requests).run moves).world.registry.has id = true := by
    rw [hfollows.registry]
    exact (Docket.has_of_adds (Docket.sound_start _ _) (fun i => hdeletes i id) (.inl hadds)
      moves).resolve_left (hfollows.not_forall_of_ended hended fun _ h => h)
  have hbalanced := balanced_of_isSequential hwrites
    (isSequential_of_undeleted hwrites hended hdeletes) id
  rw [Fintype.existsUnique_iff_card_one]
  simpa [Balanced, answered, hhas, hfree, hdeletes, hcreates] using hbalanced.symm

omit [Fintype ι] in
theorem has_eq_false_of_deleted [Nonempty ι] (hdeletes : ∀ i, (requests i).deletes id = true) :
    ((start app world requests).run moves).world.registry.has id = false := by
  have hfollows := (follows_start app world hwrites).run moves
  have hremoves : ∀ i, ((Docket.start world.registry requests).plans i).Removes id := by
    intro i
    rw [Docket.plans_start]
    exact Plan.opening_removes (hdeletes i)
  rw [hfollows.registry]
  exact (Docket.gone_of_removes (.inl hremoves) moves).resolve_left
    (hfollows.not_forall_of_ended hended fun _ h => h)

theorem exists_deleted [Nonempty ι] (hhas : world.registry.has id = true)
    (hdeletes : ∀ i, (requests i).deletes id = true) :
    ∃ i, ((start app world requests).run moves).status? i = some 200 := by
  have hfollows := (follows_start app world hwrites).run moves
  have hgone := has_eq_false_of_deleted hwrites hended hdeletes
  have hcreates : ∀ i, (requests i).creates id = false :=
    fun i => Request.creates_of_deletes (hdeletes i) id
  have hle := (Docket.sound_start world.registry requests).balance_le moves id
  rw [hfollows.balance, Docket.balance_start, hgone, hhas] at hle
  by_contra hnone
  simp [answered, hcreates, not_exists.mp hnone] at hle

theorem existsUnique_deleted [Nonempty ι] (hhas : world.registry.has id = true)
    (hdeletes : ∀ i, (requests i).deletes id = true)
    (hsequential : IsSequential app world requests moves) :
    ∃! i, ((start app world requests).run moves).status? i = some 200 := by
  have hgone := has_eq_false_of_deleted hwrites hended hdeletes
  have hcreates : ∀ i, (requests i).creates id = false :=
    fun i => Request.creates_of_deletes (hdeletes i) id
  have hbalanced := balanced_of_isSequential hwrites hsequential id
  rw [Fintype.existsUnique_iff_card_one]
  simpa [Balanced, answered, hhas, hgone, hdeletes, hcreates] using hbalanced

end

theorem gone_of_isSequential (hwrites : ∀ i, (requests i).writes = true)
    (h : IsSequential app world requests moves) {id : String}
    (hcreates : ∀ i, (requests i).creates id = false) {i : ι}
    (hdeletes : (requests i).deletes id = true)
    (hstatus : ((start app world requests).run moves).status? i = some 200) :
    ((start app world requests).run moves).world.registry.has id = false := by
  have hbalanced := balanced_of_isSequential hwrites h id
  have hpositive : 0 < ((start app world requests).run moves).answered
      (fun i => (requests i).deletes id) 200 :=
    Finset.card_pos.mpr ⟨i, by simp [hdeletes, hstatus]⟩
  have hnone : ((start app world requests).run moves).answered
      (fun i => (requests i).creates id) 201 = 0 := by simp [answered, hcreates]
  have hle := Bool.toNat_le (world.registry.has id)
  rw [Balanced, hnone] at hbalanced
  refine Bool.toNat_eq_zero.mp ?_
  omega

/-- **Requests that write at the same time.** Each of any number of requests to
create, replace or delete workflows is answered after three steps of its own,
whatever the others do in between. When all are answered, they can be put in a
row if and only if the books balance: with answers and a registry that tell
of no id that more was taken out of it than was put in. That is always so
when nothing is deleted, so of creations of a free id exactly one succeeds. -/
theorem concurrent_writes (app : App) (world : World) (requests : ι → Request)
    (hwrites : ∀ i, (requests i).writes = true) (moves : List (Move ι)) :
    let t := (start app world requests).run moves
    ((∀ i, 3 ≤ moves.countP (·.call = i)) → t.Ended) ∧
      (t.Ended → Orderly app world requests moves t) := by
  intro t
  have hfollows : t.Follows requests ((Docket.start world.registry requests).run moves) :=
    (follows_start app world hwrites).run moves
  refine ⟨fun hsteps i => ?_, fun hended => ⟨?_, ?_, ?_, ?_, ?_⟩⟩
  · have hwithin : ∀ i, ((Docket.start world.registry requests).plans i).Within
        (moves.countP (·.call = i)) := by
      intro i
      rw [Docket.plans_start]
      exact (Plan.opening_within (requests i)).mono (hsteps i)
    obtain ⟨reply, hreply⟩ := Docket.answered_of_within hwithin i
    rw [hfollows.status?, hreply]
    rfl
  · exact isSequential_iff_balanced hwrites hended
  · exact fun hdeletes => isSequential_of_undeleted hwrites hended hdeletes
  · intro id hfree hid hoffers hnonempty
    exact existsUnique_created hwrites hended hfree hid hoffers
  · intro id hhas hdeletes hnonempty
    refine ⟨exists_deleted hwrites hended hhas hdeletes, fun hsequential => ?_⟩
    exact existsUnique_deleted hwrites hended hhas hdeletes hsequential
  · rintro hsequential id hcreates ⟨i, hi⟩
    exact gone_of_isSequential hwrites hsequential hcreates hi.1 hi.2

/-- Two valid creations of one id, of which the one that reads its body first
is the last to exchange. -/
theorem racing_creations :
    let requests : Bool → Request := fun _ => creation "made"
    let moves : List (Move Bool) :=
      [⟨true, 0⟩, ⟨false, 1⟩, ⟨false, 2⟩, ⟨true, 3⟩, ⟨true, 3⟩, ⟨false, 3⟩]
    (∀ i, (requests i).writes = true) ∧ ((start usual {} requests).run moves).Ended ∧
      IsSequential usual {} requests moves ∧
      ∃! i, ((start usual {} requests).run moves).status? i = some 201 := by
  intro requests moves
  have hoperation : (creation "made").operation? = some .createWorkflow := by decide +kernel
  have hwrites : ∀ i, (requests i).writes = true := fun _ => by
    simp only [requests, Request.writes, hoperation]
  obtain ⟨hends, horderly⟩ := concurrent_writes usual {} requests hwrites moves
  have hended := hends (by decide)
  obtain ⟨w, hread, hid, hvalid⟩ := creation_read (.inr rfl)
  have hoffer : ∀ i, ∃ w, (requests i).offer? = some w ∧ w.id = "made" ∧ w.isValid = true := by
    intro i
    refine ⟨w, ?_, hid, hvalid⟩
    simp only [requests, Request.offer?, hoperation, hread]
    rfl
  refine ⟨hwrites, hended, (horderly hended).undeleted fun i => ?_,
    (horderly hended).created "made" rfl (by decide) hoffer ⟨true⟩⟩
  obtain ⟨w, hoffer, -⟩ := hoffer i
  exact Request.deletes_of_offer? hoffer

/-- A request to put a workflow of one node in the place of another. -/
def replacement (id : String) : Request :=
  { creation id with method := "PUT", target := "/api/workflows/" ++ id }

/-- A request to take a workflow out. -/
def deletion (id : String) : Request where
  method := "DELETE"
  target := "/api/workflows/" ++ id
  contentType := none
  body := ""

/-- A replacement and two deletions of one workflow. -/
def rivals : Fin 3 → Request
  | 0 => replacement "made"
  | _ => deletion "made"

/-- All of them find the workflow; then it is taken out twice, and put there again. -/
def overtaking : List (Move (Fin 3)) :=
  [⟨0, 0⟩, ⟨0, 0⟩, ⟨1, 0⟩, ⟨2, 0⟩, ⟨1, 0⟩, ⟨2, 0⟩, ⟨0, 0⟩]

/-- They are all acknowledged, and the workflow is there, though nobody created
it again. -/
theorem overtaken {world : World} (h : world.registry.has "made" = true) :
    let t := (start usual world rivals).run overtaking
    (∀ i, (rivals i).writes = true ∧ (rivals i).creates "made" = false) ∧
      (rivals 1).deletes "made" = true ∧ (rivals 2).deletes "made" = true ∧
      (∀ i, t.status? i = some 200) ∧ t.world.registry.has "made" = true := by
  have hname : segmentName? "made" = some "made" := by decide +kernel
  have hput : (replacement "made").operation? = some (.updateWorkflow "made") := by decide +kernel
  have hdelete : (deletion "made").operation? = some (.deleteWorkflow "made") := by decide +kernel
  have hwrites : ∀ i, (rivals i).writes = true ∧ (rivals i).creates "made" = false := by
    intro i
    unfold rivals
    split
    · simp [Request.writes, Request.creates, Request.offer?, hput]
    · simp [Request.writes, Request.creates, Request.offer?, hdelete]
  have hdeletes : (deletion "made").deletes "made" = true :=
    Request.deletes_iff.mpr ⟨"made", hdelete, hname⟩
  obtain ⟨v, hread, -, hvalid⟩ : ∃ v,
      (replacement "made").json (decodeWorkflowRequest 0) = .ok v ∧ v.id = "made" ∧
        v.isValid = true := creation_read (.inr rfl)
  obtain ⟨w, absent, put, hreplacing, hid, hput200⟩ : ∃ w absent put,
      Plan.replacing "made" ((replacement "made").json (decodeWorkflowRequest 0)) =
        .look (.put w) absent put ∧ w.id = "made" ∧ put.response.status = 200 := by
    rw [hread, Plan.replacing]
    exact ⟨_, _, _, if_pos hvalid, rfl, rfl⟩
  obtain ⟨absent', dropped, hdeleting, hdropped200⟩ : ∃ absent dropped,
      Plan.deleting "made" = .look (.drop "made") absent dropped ∧
        dropped.response.status = 200 := ⟨_, _, rfl, rfl⟩
  have hfound : (world.registry.get? "made").isSome = true := h
  have hrun : (Docket.start world.registry rivals).run overtaking =
      ⟨((world.registry.drop "made").drop "made").put (.reading 0) w,
        fun i => .answered (if i = 0 then put else dropped)⟩ := by
    simp [overtaking, Docket.move, Docket.start, rivals, Plan.opening_of_update hput hname,
      Plan.opening_of_delete hdelete hname, hdeleting, Plan.step, hreplacing, hfound,
      Exchange.apply, Exchange.id, hid]
    funext i
    fin_cases i <;> rfl
  have hfollows := (follows_start usual world fun i => (hwrites i).1).run overtaking
  rw [hrun] at hfollows
  refine ⟨hwrites, hdeletes, hdeletes, fun i => ?_, ?_⟩
  · rw [hfollows.status?]
    by_cases hi : i = 0 <;> simp [Plan.reply?, hi, hput200, hdropped200]
  · rw [hfollows.registry, Registry.has_put, hid]
    rfl

/-- Requests that write at the same time cannot always be put in a row. -/
theorem not_always_sequential :
    ¬∀ (ι : Type) [DecidableEq ι] [Fintype ι] (app : App) (world : World)
      (requests : ι → Request) (moves : List (Move ι)), (∀ i, (requests i).writes = true) →
      ((start app world requests).run moves).Ended → IsSequential app world requests moves := by
  intro hall
  obtain ⟨hoperation, hcreated, w, hread, hid⟩ := creation_created (.inr rfl)
  have hhas : (usual.serve {} (creation "made")).2.world.registry.has "made" = true := by
    have hplaced := (usual.serve_post (s := {}) hoperation hread).2 hcreated
    rw [hid] at hplaced
    rw [Registry.has, hplaced]
    rfl
  obtain ⟨hrivals, hdeletes, -, hstatus, hstays⟩ := overtaken hhas
  have hwrites := fun i => (hrivals i).1
  have hsequential := hall (Fin 3) usual _ rivals overtaking hwrites fun i => by rw [hstatus]; rfl
  have hgone := gone_of_isSequential hwrites hsequential (fun i => (hrivals i).2) hdeletes
    (hstatus 1)
  rw [hstays] at hgone
  cases hgone

end Traffic

end Automation.Http
