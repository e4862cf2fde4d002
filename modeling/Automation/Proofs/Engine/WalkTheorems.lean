/-
Automation.Proofs.Engine.WalkTheorems — a walk depth first with an explicit
stack is a recursive descent.

`descend` visits a node and then, one after the other, everything that the
visit names, before it comes back; `walk` has no calls to come back from
and keeps on a stack what is still to be visited. The stack may hold a
node several times, pushed by different parents, and marks are looked at
both before a node is pushed and when it is taken off; the descent looks
at them once, when it is called. `walk_eq_descendAll` says that they are
the same process.

Three facts about the stack carry the proof. Marked nodes on it make no
difference, wherever they lie (`walk_dropMarked`). The budget makes none
as long as it is no less than the number of nodes that are not yet marked
(`walk_budget`). And what lies below the nodes `ids` on the stack is what
is walked after the descent from `ids` (`walk_append`); that is where the
stack is related to the calls that are pending.
-/
import Automation.Proofs.Engine.ProcessTheorems
import Automation.Engine.Walk
import Mathlib.Data.List.Basic

namespace Automation

open Process

variable {σ α ρ : Type}

/-! ## The recursive descent -/

/-- What a descent hands on: the marked nodes, what the visits hand on,
and the reason if it was halted. -/
abbrev Trail (α ρ : Type) := List String × α × Option ρ

/-- Go down from several nodes, one after the other, until one of the
descents is halted. -/
def descendAll (down : String → List String → α → Process σ (Trail α ρ)) :
    List String → List String → α → Process σ (Trail α ρ)
  | [], marked, a => return (marked, a, none)
  | id :: rest, marked, a => do
    let (marked, a, halt) ← down id marked a
    match halt with
    | some reason => return (marked, a, some reason)
    | none => descendAll down rest marked a

/-- Go down from a node: pass over it if it is marked, else mark it, visit
it and go down from each of the nodes that the visit names, in order.
`depth` is how far one descent lies within another at most. -/
def descend (visit : String → α → Process σ (α × Onward ρ)) :
    (depth : Nat) → String → List String → α → Process σ (Trail α ρ)
  | depth, id, marked, a =>
    if marked.contains id then return (marked, a, none)
    else
      match depth with
      | 0 => return (marked, a, none)
      | depth + 1 => do
        let (a, onward) ← visit id a
        match onward with
        | .follow targets => descendAll (descend visit depth) targets (id :: marked) a
        | .halt reason => return (id :: marked, a, some reason)

theorem descendAll_cons (down : String → List String → α → Process σ (Trail α ρ)) (id : String)
    (rest marked : List String) (a : α) :
    descendAll down (id :: rest) marked a =
      down id marked a >>= fun (marked, a, halt) =>
        match halt with
        | some reason => done (marked, a, some reason)
        | none => descendAll down rest marked a := rfl

/-! ## Marks -/

/-- How many of the nodes are not marked. -/
def unmarked (nodes marked : List String) : Nat :=
  (nodes.filter fun id => !marked.contains id).length

theorem unmarked_nil (nodes : List String) : unmarked nodes [] = nodes.length := by
  simp [unmarked]

/-- More marks, fewer nodes without one. -/
theorem unmarked_le {nodes marked marked' : List String} (h : marked ⊆ marked') :
    unmarked nodes marked' ≤ unmarked nodes marked := by
  unfold unmarked
  apply List.Sublist.length_le
  apply List.monotone_filter_right
  intro id hid
  simp only [Bool.not_eq_true', List.contains_eq_mem, decide_eq_false_iff_not] at hid ⊢
  exact fun hm => hid (h hm)

/-- A node that is marked for the first time is one less without a mark. -/
theorem unmarked_cons_lt {nodes marked : List String} {id : String} (hid : id ∈ nodes)
    (hm : marked.contains id = false) : unmarked nodes (id :: marked) < unmarked nodes marked := by
  have hsplit : (nodes.filter fun x => !(id :: marked).contains x)
      = (nodes.filter fun x => !marked.contains x).filter fun x => x != id := by
    rw [List.filter_filter]
    apply List.filter_congr
    intro x _
    by_cases hx : x = id <;> simp [hx]
  unfold unmarked
  rw [hsplit]
  apply List.length_filter_lt_length_iff_exists.mpr
  refine ⟨id, List.mem_filter.mpr ⟨hid, ?_⟩, by simp⟩
  simpa using hm

/-! ## One step of a walk and of a descent -/

/-- Where a visit leads: within `nodes`, if anywhere. -/
def Onward.Within (nodes : List String) : Onward ρ → Prop
  | .follow targets => targets ⊆ nodes
  | .halt _ => True

variable (visit : String → α → Process σ (α × Onward ρ))

@[simp] theorem walk_nil (budget : Nat) (marked : List String) (a : α) :
    walk visit budget marked [] a = done (a, none) := by
  cases budget <;> rfl

theorem walk_marked {marked : List String} {id : String} (h : marked.contains id = true)
    (budget : Nat) (rest : List String) (a : α) :
    walk visit budget marked (id :: rest) a = walk visit budget marked rest a := by
  cases budget with
  | zero => rfl
  | succ budget => simp only [walk, List.dropWhile_cons, h, if_true]

theorem walk_unmarked {marked : List String} {id : String} (h : marked.contains id = false)
    (budget : Nat) (rest : List String) (a : α) :
    walk visit (budget + 1) marked (id :: rest) a =
      visit id a >>= fun (a, onward) =>
        match onward with
        | .follow targets =>
          walk visit budget (id :: marked)
            (targets.filter (fun t => !(id :: marked).contains t) ++ rest) a
        | .halt reason => done (a, some reason) := by
  simp only [walk, List.dropWhile_cons, h]
  rfl

theorem descend_marked {marked : List String} {id : String} (h : marked.contains id = true)
    (depth : Nat) (a : α) : descend visit depth id marked a = done (marked, a, none) := by
  unfold descend
  rw [if_pos h]
  rfl

theorem descend_unmarked {marked : List String} {id : String} (h : marked.contains id = false)
    (depth : Nat) (a : α) :
    descend visit (depth + 1) id marked a =
      visit id a >>= fun (a, onward) =>
        match onward with
        | .follow targets => descendAll (descend visit depth) targets (id :: marked) a
        | .halt reason => done (id :: marked, a, some reason) := by
  conv => lhs; unfold descend
  rw [if_neg (by rw [h]; exact Bool.false_ne_true)]
  rfl

/-- Two stacks that differ in marked nodes only are walked alike. -/
theorem walk_dropMarked (budget : Nat) : ∀ (marked stack : List String) (a : α),
    walk visit budget marked (stack.filter fun id => !marked.contains id) a =
      walk visit budget marked stack a := by
  induction budget with
  | zero => intro marked stack a; rfl
  | succ budget ih =>
    intro marked stack a
    induction stack with
    | nil => rfl
    | cons id rest ihs =>
      cases h : marked.contains id with
      | true => rw [walk_marked visit h, ← ihs, List.filter_cons_of_neg (by simpa using h)]
      | false =>
        rw [List.filter_cons_of_pos (by simpa using h), walk_unmarked visit h, walk_unmarked visit h]
        congr 1
        funext r
        obtain ⟨a, onward⟩ := r
        cases onward with
        | halt reason => rfl
        | follow targets =>
          -- below the new nodes lie two stacks that agree up to marks
          have hbelow : ∀ ts : List String,
              (ts ++ rest.filter fun x => !marked.contains x).filter
                  (fun x => !(id :: marked).contains x)
                = (ts ++ rest).filter fun x => !(id :: marked).contains x := by
            intro ts
            rw [List.filter_append, List.filter_append, List.filter_filter]
            congr 1
            apply List.filter_congr
            intro x _
            by_cases hx : x = id <;> simp [hx]
          dsimp only
          rw [← ih, hbelow, ih]

theorem walk_congr_dropMarked {marked stack stack' : List String}
    (h : (stack.filter fun id => !marked.contains id) = stack'.filter fun id => !marked.contains id)
    (budget : Nat) (a : α) : walk visit budget marked stack a = walk visit budget marked stack' a := by
  rw [← walk_dropMarked, h, walk_dropMarked]

/-! ## Budgets -/

section

variable {nodes : List String}
  (hvisit : ∀ id a, (visit id a).Always fun r => r.2.Within nodes)

include hvisit

/-- Two budgets that suffice for the nodes without a mark. -/
theorem walk_budget : ∀ (m n : Nat) (marked stack : List String) (a : α), stack ⊆ nodes →
    unmarked nodes marked ≤ m → unmarked nodes marked ≤ n →
    walk visit m marked stack a = walk visit n marked stack a := by
  intro m
  induction m with
  | zero =>
    intro n marked stack a hs hm _
    induction stack with
    | nil => simp
    | cons id rest ihs =>
      have hid : marked.contains id = true := by
        rw [← Bool.not_eq_false]
        intro h
        have := unmarked_cons_lt (hs List.mem_cons_self) h
        omega
      rw [walk_marked visit hid, walk_marked visit hid,
        ihs fun x hx => hs (List.mem_cons_of_mem _ hx)]
  | succ m ih =>
    intro n marked stack a hs hm hn
    induction stack with
    | nil => simp
    | cons id rest ihs =>
      have hrest : rest ⊆ nodes := fun x hx => hs (List.mem_cons_of_mem _ hx)
      cases h : marked.contains id with
      | true => rw [walk_marked visit h, walk_marked visit h, ihs hrest]
      | false =>
        have hlt := unmarked_cons_lt (hs List.mem_cons_self) h
        obtain ⟨n, rfl⟩ : ∃ k, n = k + 1 := ⟨n - 1, by omega⟩
        rw [walk_unmarked visit h, walk_unmarked visit h]
        refine bind_congr_always ?_ (hvisit id a)
        rintro ⟨a, onward⟩ hon
        cases onward with
        | halt reason => rfl
        | follow targets =>
          refine ih n (id :: marked) _ a ?_ (by omega) (by omega)
          intro x hx
          simp only [List.mem_append] at hx
          rcases hx with hx | hx
          · exact hon (List.mem_filter.mp hx).1
          · exact hrest hx

/-! ## The stack and the pending calls -/

omit hvisit in
/-- Several descents take no mark away if none of them does. -/
theorem marks_descendAll {down : String → List String → α → Process σ (Trail α ρ)}
    (hdown : ∀ id marked a, (down id marked a).Always fun r => marked ⊆ r.1) :
    ∀ (ids marked : List String) (a : α),
      (descendAll down ids marked a).Always fun r => marked ⊆ r.1
  | [], marked, _ => List.Subset.refl marked
  | id :: rest, marked, a => by
    refine (hdown id marked a).bind ?_
    rintro ⟨marked', a, halt⟩ hm
    cases halt with
    | some reason => exact hm
    | none => exact (marks_descendAll hdown rest marked' a).mono fun r hr =>
      List.Subset.trans hm hr

omit hvisit in
/-- A descent takes no mark away. -/
theorem marks_descend (depth : Nat) : ∀ (id : String) (marked : List String) (a : α),
    (descend visit depth id marked a).Always fun r => marked ⊆ r.1 := by
  induction depth with
  | zero =>
    intro id marked a
    unfold descend
    split <;> exact List.Subset.refl marked
  | succ depth ih =>
    intro id marked a
    unfold descend
    split
    · exact List.Subset.refl marked
    · refine always_bind (visit id a) ?_
      rintro ⟨a, onward⟩
      cases onward with
      | halt reason => exact List.subset_cons_self id marked
      | follow targets =>
        exact (marks_descendAll ih targets (id :: marked) a).mono fun r hr =>
          List.Subset.trans (List.subset_cons_self id marked) hr

/-- **The stack as pending calls**: what lies below `ids` on the stack is
walked after the descent from `ids`, with the marks that it leaves. -/
theorem walk_append (depth : Nat) : ∀ (ids rest marked : List String) (a : α) (budget : Nat),
    ids ⊆ nodes → rest ⊆ nodes → unmarked nodes marked ≤ depth → unmarked nodes marked ≤ budget →
    walk visit budget marked (ids ++ rest) a =
      descendAll (descend visit depth) ids marked a >>= fun (marked, a, halt) =>
        match halt with
        | some reason => done (a, some reason)
        | none => walk visit budget marked rest a := by
  induction depth with
  | zero =>
    intro ids rest marked a budget hids hrest hd hb
    -- every node is marked, so both sides pass over `ids`
    induction ids with
    | nil => rfl
    | cons id ids ihs =>
      have hid : marked.contains id = true := by
        rw [← Bool.not_eq_false]
        intro h
        have := unmarked_cons_lt (hids List.mem_cons_self) h
        omega
      rw [List.cons_append, walk_marked visit hid,
        ihs fun x hx => hids (List.mem_cons_of_mem _ hx)]
      rw [descendAll_cons, descend_marked visit hid, done_bind]
  | succ depth ih =>
    intro ids
    induction ids with
    | nil => intros; rfl
    | cons id ids ihs =>
      intro rest marked a budget hids hrest hd hb
      have hids' : ids ⊆ nodes := fun x hx => hids (List.mem_cons_of_mem _ hx)
      have hbelow : ids ++ rest ⊆ nodes := List.append_subset.mpr ⟨hids', hrest⟩
      cases h : marked.contains id with
      | true =>
        rw [List.cons_append, walk_marked visit h, ihs rest marked a budget hids' hrest hd hb]
        rw [descendAll_cons, descend_marked visit h, done_bind]
      | false =>
        have hlt := unmarked_cons_lt (hids List.mem_cons_self) h
        obtain ⟨budget, rfl⟩ : ∃ k, budget = k + 1 := ⟨budget - 1, by omega⟩
        rw [List.cons_append, walk_unmarked visit h]
        rw [descendAll_cons, descend_unmarked visit h, bind_bind, bind_bind]
        refine bind_congr_always ?_ (hvisit id a)
        rintro ⟨a, onward⟩ hon
        cases onward with
        | halt reason => rfl
        | follow targets =>
          have hdrop : walk visit budget (id :: marked)
                (targets.filter (fun t => !(id :: marked).contains t) ++ (ids ++ rest)) a =
              walk visit budget (id :: marked) (targets ++ (ids ++ rest)) a :=
            walk_congr_dropMarked visit (by simp [List.filter_append, List.filter_filter]) budget a
          dsimp only
          rw [hdrop,
            ih targets (ids ++ rest) (id :: marked) a budget hon hbelow (by omega) (by omega)]
          refine bind_congr_always ?_
            (marks_descendAll (marks_descend visit depth) targets (id :: marked) a)
          rintro ⟨marked', a, halt⟩ hm
          cases halt with
          | some reason => rfl
          | none =>
            have hle : unmarked nodes marked' ≤ unmarked nodes (id :: marked) := unmarked_le hm
            dsimp only
            rw [walk_budget visit hvisit budget (budget + 1) _ _ _ hbelow (by omega) (by omega),
              ihs rest marked' a (budget + 1) hids' hrest (by omega) (by omega)]

/-- A walk from nothing marked is the descent from the nodes on its stack,
if it is given a visit and the descent a level for every node. -/
theorem walk_eq_descendAll {stack : List String} (hs : stack ⊆ nodes) {budget depth : Nat}
    (hb : nodes.length ≤ budget) (hd : nodes.length ≤ depth) (a : α) :
    walk visit budget [] stack a =
      descendAll (descend visit depth) stack [] a >>= fun (_, a, halt) => done (a, halt) := by
  have hstack := walk_append visit hvisit depth stack [] [] a budget hs (List.nil_subset _)
    (by rwa [unmarked_nil]) (by rwa [unmarked_nil])
  rw [List.append_nil] at hstack
  rw [hstack]
  congr 1
  funext r
  obtain ⟨marked, a, halt⟩ := r
  cases halt <;> simp

end

end Automation
