/-
Automation.Proofs.Http.BookTheorems — the books on requests that write.

A request to replace or delete a workflow looks the id up first and exchanges
the content of the registry later, and another request may take the workflow
out in between. Then the exchange comes too late: it puts a workflow there
that nobody created, or acknowledges a deletion of nothing. Nothing else ever
unbalances what is there of an id against what the answers say of it
(`Plan.Goes.weigh`), so the books balance if and only if nobody comes too late
(`Docket.Sound.timely_iff`).
-/
import Mathlib.Algebra.BigOperators.Group.Finset.Piecewise
import Mathlib.Algebra.Order.BigOperators.Group.Finset
import Mathlib.Algebra.Order.Ring.Int
import Automation.Proofs.Http.TrafficTheorems

namespace Automation

/-! ## Ids in use -/

namespace Registry

open Automation.Time (Timestamp)

/-- Whether an id is in use. -/
def has (r : Registry) (id : String) : Bool :=
  (r.get? id).isSome

theorem has_put (r : Registry) (now : Timestamp) (w : Workflow) (id : String) :
    (r.put now w).has id = (decide (w.id = id) || r.has id) := by
  by_cases h : w.id = id
  · subst h
    simp [has, get?_put]
  · simp [has, get?_put_ne h, h]

theorem has_drop (r : Registry) (id id' : String) :
    (r.drop id).has id' = (!decide (id = id') && r.has id') := by
  by_cases h : id = id'
  · subst h
    simp [has, get?_drop]
  · simp [has, get?_drop_ne h, h]

end Registry

namespace Http

/-! ## Sound plans -/

/-- The reply acknowledges nothing. -/
def Reply.Fails (reply : Reply) : Prop :=
  reply.response.status ≠ 200 ∧ reply.response.status ≠ 201

/-- The exchange is what the request asks for, and is acknowledged. -/
def Exchange.Suits (r : Request) (reply : Reply) : Exchange → Prop
  | put _ => reply.response.status = 200 ∧ ∀ id, r.deletes id = false
  | drop id => reply.response.status = 200 ∧ ∀ id', r.deletes id' = decide (id = id')

namespace Plan

/-- A plan that a request may begin with. -/
def Opens (r : Request) : Plan → Prop
  | read next => ∀ now, (next now).Opens r
  | create w created used =>
    created.response.status = 201 ∧ used.Fails ∧ ∀ id, r.creates id = decide (w.id = id)
  | check _ absent present => absent.Fails ∧ present.Fails
  | look e absent present => absent.Fails ∧ e.Suits r present
  | exchange _ _ => False
  | settle reply => reply.Fails
  | answered reply => reply.Fails

/-- A plan that a request may come to. -/
def Goes (r : Request) : Plan → Prop
  | exchange e reply => e.Suits r reply
  | answered _ => True
  | x => x.Opens r

/-- The id that must be in use for the next step to do what was planned. -/
def id? : Plan → Option String
  | exchange e _ => some e.id
  | _ => none

variable {r : Request} {x : Plan}

theorem Opens.goes (h : x.Opens r) : x.Goes r := by
  cases x with
  | exchange e reply => exact h.elim
  | answered reply => trivial
  | _ => exact h

theorem Opens.id? (h : x.Opens r) : x.id? = none := by
  cases x with
  | exchange e reply => exact h.elim
  | _ => rfl

theorem fails_rejection (e : Rejection) : Reply.Fails { response := e.response } := by
  cases e <;> exact ⟨by simp [Rejection.response], by simp [Rejection.response]⟩

theorem creating_opens (hoperation : r.operation? = some .createWorkflow) (now : Nat) :
    (creating (r.json (decodeWorkflowRequest now))).Opens r := by
  cases hread : r.json (decodeWorkflowRequest now) with
  | error e => exact fails_rejection e
  | ok w =>
    obtain ⟨v, hoffer, hid, -⟩ := Request.offer?_of_read hoperation hread
    have hcreates : ∀ id, r.creates id = decide (w.id = id) := by
      intro id
      simp only [Request.creates, hoffer, Option.any_some, hid]
      rfl
    unfold creating
    dsimp only
    split
    · exact ⟨by decide, by decide⟩
    split
    · exact ⟨rfl, ⟨by decide, by decide⟩, hcreates⟩
    · exact ⟨by decide, by decide⟩

theorem replacing_opens {name : String} (hoperation : r.operation? = some (.updateWorkflow name))
    (id : String) (result : Except Rejection Workflow) : (replacing id result).Opens r := by
  cases result with
  | error e => exact fails_rejection e
  | ok v =>
    have hdeletes : ∀ id, r.deletes id = false := by simp [Request.deletes, hoperation]
    unfold replacing
    dsimp only
    split
    · exact ⟨⟨by decide, by decide⟩, rfl, hdeletes⟩
    · exact ⟨⟨by decide, by decide⟩, ⟨by decide, by decide⟩⟩

theorem deleting_opens {name id : String} (hoperation : r.operation? = some (.deleteWorkflow name))
    (hname : segmentName? name = some id) : (deleting id).Opens r := by
  refine ⟨⟨by decide, by decide⟩, rfl, fun id' => ?_⟩
  simp only [Request.deletes, hoperation, hname]
  rfl

/-- What a request plans at first is sound. -/
theorem opening_opens (r : Request) : (opening r).Opens r := by
  unfold opening
  split
  · next hoperation => exact fun now => creating_opens hoperation now
  · next hoperation =>
    split
    · next e _ => exact fails_rejection e
    · exact fun now => replacing_opens hoperation _ _
  · next hoperation =>
    split
    · next e _ => exact fails_rejection e
    · next hname => exact deleting_opens hoperation (readName_eq_ok.mp hname)
  · exact ⟨by decide, by decide⟩

variable {registry : Registry} {now : Nat}

/-- A sound plan stays so. -/
theorem Goes.step (h : x.Goes r) : (x.step now registry).2.Goes r := by
  cases x with
  | read next => exact (h now).goes
  | create w created used =>
    simp only [Plan.step]
    split <;> trivial
  | check id absent present =>
    simp only [Plan.step]
    split
    · exact h.2
    · trivial
  | look e absent present =>
    simp only [Plan.step]
    split
    · exact h.2
    · trivial
  | _ => trivial

/-- Right after the look the id is in use. -/
theorem Goes.ready (h : x.Goes r) :
    ∀ id ∈ (x.step now registry).2.id?, (x.step now registry).1.has id = true := by
  intro id hid
  cases x with
  | read next =>
    simp only [Plan.step, (h now).id?] at hid
    cases hid
  | create w created used =>
    simp only [Plan.step] at hid
    split at hid <;> cases hid
  | check id' absent present =>
    simp only [Plan.step] at hid
    split at hid <;> cases hid
  | look e absent present =>
    simp only [Plan.step] at hid ⊢
    split at hid
    · next hhas =>
      cases hid
      exact hhas
    · cases hid
  | exchange e reply => cases hid
  | settle reply => cases hid
  | answered reply => cases hid

/-! ## Books -/

/-- What an answer says of an id: a workflow that was there was taken out, or
one was put there that was not. -/
def weight (r : Request) (id : String) : Plan → Int
  | answered reply =>
    (if r.deletes id = true ∧ reply.response.status = 200 then 1 else 0) -
      if r.creates id = true ∧ reply.response.status = 201 then 1 else 0
  | _ => 0

/-- The step comes too late: the id is no longer in use. -/
def isLate (registry : Registry) (id : String) (x : Plan) : Bool :=
  x.id? == some id && !registry.has id

theorem weight_of_fails {reply : Reply} (h : reply.Fails) (id : String) :
    (answered reply).weight r id = 0 := by
  simp [weight, h.1, h.2]

theorem Opens.weight (h : x.Opens r) (id : String) : x.weight r id = 0 := by
  cases x with
  | answered reply => exact weight_of_fails h id
  | _ => rfl

/-- **Every step is entered in the books**, and the only one that unbalances
them is one that comes too late. -/
theorem Goes.weigh (h : x.Goes r) (id : String) :
    ((x.step now registry).1.has id).toNat + (x.step now registry).2.weight r id =
      (registry.has id).toNat + x.weight r id + (x.isLate registry id).toNat := by
  cases x with
  | read next =>
    have hread : (read next).weight r id = 0 := rfl
    simp [Plan.step, (h now).weight, hread, isLate, id?]
  | create w created used =>
    obtain ⟨hcreated, hused, hcreates⟩ := h
    by_cases hhas : (registry.get? w.id).isSome = true
    · simp [Plan.step, hhas, hused.1, hused.2, weight, isLate, id?]
    · have hfree : registry.has w.id = false := by simpa [Registry.has] using hhas
      by_cases hid : w.id = id
      · subst hid
        simp [Plan.step, hhas, weight, isLate, id?, hcreated, hcreates, Registry.has_put, hfree]
      · simp [Plan.step, hhas, weight, isLate, id?, hcreated, hcreates, Registry.has_put, hid]
  | check id' absent present =>
    by_cases hhas : (registry.get? id').isSome = true
    · simp [Plan.step, hhas, weight, isLate, id?]
    · simp [Plan.step, hhas, h.1.1, h.1.2, weight, isLate, id?]
  | look e absent present =>
    by_cases hhas : (registry.get? e.id).isSome = true
    · simp [Plan.step, hhas, weight, isLate, id?]
    · simp [Plan.step, hhas, h.1.1, h.1.2, weight, isLate, id?]
  | exchange e reply =>
    cases e with
    | put w =>
      obtain ⟨hstatus, hdeletes⟩ := h
      by_cases hid : w.id = id
      · subst hid
        cases hhas : registry.has w.id <;>
          simp [Plan.step, Exchange.apply, Exchange.id, weight, isLate, id?, hstatus, hdeletes,
            Registry.has_put, hhas]
      · simp [Plan.step, Exchange.apply, Exchange.id, weight, isLate, id?, hstatus, hdeletes,
          Registry.has_put, hid]
    | drop id' =>
      obtain ⟨hstatus, hdeletes⟩ := h
      by_cases hid : id' = id
      · subst hid
        cases hhas : registry.has id' <;>
          simp [Plan.step, Exchange.apply, Exchange.id, weight, isLate, id?, hstatus, hdeletes,
            Registry.has_drop, hhas]
      · simp [Plan.step, Exchange.apply, Exchange.id, weight, isLate, id?, hstatus, hdeletes,
          Registry.has_drop, hid]
  | settle reply => simp [Plan.step, h.1, h.2, weight, isLate, id?]
  | answered reply => simp [Plan.step, isLate, id?]

end Plan

namespace Docket

variable {ι : Type} {requests : ι → Request}

/-- All plans are sound. -/
def Sound (requests : ι → Request) (d : Docket ι) : Prop :=
  ∀ i, (d.plans i).Goes (requests i)

/-- The plans are those that the requests begin with. -/
def Opens (requests : ι → Request) (d : Docket ι) : Prop :=
  ∀ i, (d.plans i).Opens (requests i)

theorem opens_start (registry : Registry) (requests : ι → Request) :
    (start registry requests).Opens requests :=
  fun i => Plan.opening_opens (requests i)

theorem sound_start (registry : Registry) (requests : ι → Request) :
    (start registry requests).Sound requests :=
  fun i => (opens_start registry requests i).goes

/-- What is there of an id, and what the answers say of it. -/
def balance [Fintype ι] (requests : ι → Request) (d : Docket ι) (id : String) : Int :=
  (d.registry.has id).toNat + ∑ i, (d.plans i).weight (requests i) id

theorem balance_start [Fintype ι] (registry : Registry) (requests : ι → Request) (id : String) :
    (start registry requests).balance requests id = (registry.has id).toNat := by
  have hsum : ∑ i, ((start registry requests).plans i).weight (requests i) id = 0 :=
    Finset.sum_eq_zero fun i _ => (opens_start registry requests i).weight id
  rw [balance, hsum]
  exact add_zero _

variable [DecidableEq ι] {d : Docket ι} {m : Move ι}

@[simp] theorem registry_move :
    (d.move m).registry = ((d.plans m.call).step m.instant d.registry).1 := rfl

@[simp] theorem plans_move_self :
    (d.move m).plans m.call = ((d.plans m.call).step m.instant d.registry).2 :=
  Function.update_self ..

@[simp] theorem plans_move_of_ne {i : ι} (h : i ≠ m.call) : (d.move m).plans i = d.plans i :=
  Function.update_of_ne h ..

/-- What is true of all plans after a step. -/
theorem forall_plans_move (P : ι → Plan → Prop)
    (hown : P m.call ((d.plans m.call).step m.instant d.registry).2)
    (hrest : ∀ i ≠ m.call, P i (d.plans i)) (i : ι) : P i ((d.move m).plans i) := by
  by_cases hi : i = m.call
  · subst hi
    rwa [plans_move_self]
  · rw [plans_move_of_ne hi]
    exact hrest i hi

theorem Sound.move (h : d.Sound requests) : (d.move m).Sound requests :=
  forall_plans_move (fun i x => x.Goes (requests i)) (h m.call).step fun i _ => h i

@[simp] theorem run_nil : d.run [] = d := rfl

@[simp] theorem run_cons (moves : List (Move ι)) : d.run (m :: moves) = (d.move m).run moves := rfl

theorem run_append (d : Docket ι) (moves rest : List (Move ι)) :
    d.run (moves ++ rest) = (d.run moves).run rest :=
  List.foldl_append

/-- Nobody's step comes too late. -/
def Timely : Docket ι → List (Move ι) → Prop
  | _, [] => True
  | d, m :: rest => (∀ id ∈ (d.plans m.call).id?, d.registry.has id = true) ∧ (d.move m).Timely rest

theorem timely_append {d : Docket ι} {moves rest : List (Move ι)} :
    d.Timely (moves ++ rest) ↔ d.Timely moves ∧ (d.run moves).Timely rest := by
  induction moves generalizing d with
  | nil => exact ⟨fun h => ⟨trivial, h⟩, fun h => h.2⟩
  | cons m moves ih => exact (and_congr_right fun _ => ih).trans and_assoc.symm

section

variable [Fintype ι]

/-- Only the plan that is carried on weighs anew. -/
theorem sum_weight_move (requests : ι → Request) (d : Docket ι) (m : Move ι) (id : String) :
    ∑ i, ((d.move m).plans i).weight (requests i) id +
        (d.plans m.call).weight (requests m.call) id =
      ∑ i, (d.plans i).weight (requests i) id +
        ((d.plans m.call).step m.instant d.registry).2.weight (requests m.call) id := by
  have hrest : ∑ i ∈ Finset.univ.erase m.call, ((d.move m).plans i).weight (requests i) id =
      ∑ i ∈ Finset.univ.erase m.call, (d.plans i).weight (requests i) id :=
    Finset.sum_congr rfl fun i hi => by rw [plans_move_of_ne (Finset.ne_of_mem_erase hi)]
  rw [← Finset.add_sum_erase _ _ (Finset.mem_univ m.call),
    ← Finset.add_sum_erase _ (fun i => (d.plans i).weight (requests i) id)
      (Finset.mem_univ m.call), hrest, plans_move_self]
  omega

theorem Sound.balance_move (h : d.Sound requests) (id : String) :
    (d.move m).balance requests id =
      d.balance requests id + ((d.plans m.call).isLate d.registry id).toNat := by
  have hsum := sum_weight_move requests d m id
  have hweigh : (((d.plans m.call).step m.instant d.registry).1.has id).toNat +
      ((d.plans m.call).step m.instant d.registry).2.weight (requests m.call) id =
        (d.registry.has id).toNat + (d.plans m.call).weight (requests m.call) id +
          ((d.plans m.call).isLate d.registry id).toNat := (h m.call).weigh id
  simp only [balance, registry_move]
  omega

/-- The balance of an id never falls. -/
theorem Sound.balance_le (h : d.Sound requests) (moves : List (Move ι)) (id : String) :
    d.balance requests id ≤ (d.run moves).balance requests id := by
  induction moves generalizing d with
  | nil => exact le_refl _
  | cons m rest ih =>
    have hrest := ih (h.move (m := m))
    rw [h.balance_move] at hrest
    exact le_trans (by omega) hrest

/-- **The books balance** if and only if nobody comes too late. -/
theorem Sound.timely_iff (h : d.Sound requests) (moves : List (Move ι)) :
    d.Timely moves ↔ ∀ id, (d.run moves).balance requests id = d.balance requests id := by
  induction moves generalizing d with
  | nil => exact ⟨fun _ _ => rfl, fun _ => trivial⟩
  | cons m rest ih =>
    have hmove := h.move (m := m)
    have hlate : (∀ id ∈ (d.plans m.call).id?, d.registry.has id = true) ↔
        ∀ id, (d.plans m.call).isLate d.registry id = false := by
      simp [Plan.isLate]
    rw [Timely, ih hmove, hlate]
    refine ⟨fun ⟨hnow, hrest⟩ id => ?_, fun hall => ?_⟩
    · have hrest := hrest id
      rw [h.balance_move, hnow id] at hrest
      simpa using hrest
    · have hnow : ∀ id, (d.plans m.call).isLate d.registry id = false := by
        intro id
        have hle := hmove.balance_le rest id
        have heq := hall id
        rw [h.balance_move] at hle
        cases hlate : (d.plans m.call).isLate d.registry id with
        | false => rfl
        | true =>
          simp only [hlate, run_cons, Bool.toNat_true] at hle heq
          omega
      refine ⟨hnow, fun id => ?_⟩
      rw [h.balance_move, hnow id]
      simpa using hall id

end

end Docket

end Http

end Automation
