/-
Automation.Proofs.Workflow.SearchTheorems — the search for a cycle is
exact, and needs no calls.

What a search reports is a cycle (`Graph.search_error`): its path is a way
along the connections without an id twice (`Graph.IsWay`), and an id that
is met again cuts the cycle out of that way. That nothing is reported only
where there is no cycle is known from the ranking that a search leaves
behind (`Graph.cycle?_eq_none_iff`).

The search goes down by calling itself. `Graph.Loop` is the same search
without calls: it keeps the nodes in hand on a stack, each with those of
its successors that are still to be looked at. `Loop.answer` says what a
search by calls comes to from the same place, and no step changes that
(`Loop.Sound.step`), and every step but the last takes some of the work that
is left (`Loop.Goes`). So the loop ends, after a number of steps that is
linear in the nodes and the connections, with the answer of the search.
-/
import Mathlib.Algebra.BigOperators.Group.Finset.Piecewise
import Mathlib.Algebra.Order.BigOperators.Group.Finset
import Mathlib.Algebra.Order.Ring.Nat
import Mathlib.Data.List.Chain
import Mathlib.Data.List.Nodup
import Mathlib.Logic.Relation
import Automation.Proofs.Workflow.CycleTheorems

namespace Automation.Graph

/-! ## Cycles -/

/-- A connection leads from one id to the other. -/
def Links (g : Graph) (source target : String) : Prop :=
  ∃ c ∈ g.connections, c.source = source ∧ c.target = target

theorem mem_successors {g : Graph} {id target : String} :
    target ∈ g.successors id ↔ g.Links id target := by
  unfold successors Links
  simp [mem_next, Routing.follows]

/-- The ids along a cycle, the first one again at the end: ids of nodes, no
other one twice, and each one connected to the next. -/
structure IsCycle (g : Graph) (ids : List String) : Prop where
  returns : ∃ first way, ids = first :: way ++ [first]
  distinct : ids.dropLast.Nodup
  within : ids ⊆ g.ids
  linked : ids.IsChain g.Links

/-- The way from the root of a search to an id, the last id first. -/
structure IsWay (g : Graph) (path : List String) (id : String) : Prop where
  distinct : path.Nodup
  within : id :: path ⊆ g.ids
  linked : (id :: path).IsChain fun b a => g.Links a b

section

variable {g : Graph} {path : List String} {id : String}

/-- A way goes on along a connection. -/
theorem IsWay.step (h : g.IsWay path id) (hnew : id ∉ path) {target : String}
    (ht : g.Links id target) (hin : target ∈ g.ids) : g.IsWay (id :: path) target where
  distinct := List.nodup_cons.mpr ⟨hnew, h.distinct⟩
  within := List.cons_subset.mpr ⟨hin, h.within⟩
  linked := List.isChain_cons_cons.mpr ⟨ht, h.linked⟩

/-- A way that comes back to one of its ids has gone around a cycle. -/
theorem IsWay.closes (h : g.IsWay path id) (hid : id ∈ path) :
    g.IsCycle (id :: (path.takeWhile (· != id)).reverse ++ [id]) := by
  obtain ⟨since, before, hpath, hsince⟩ := List.eq_append_cons_of_mem hid
  have htake : path.takeWhile (· != id) = since := by
    rw [hpath, List.takeWhile_append_of_pos]
    · simp
    · exact fun x hx => bne_iff_ne.mpr fun heq => hsince (heq ▸ hx)
  have hround : id :: path = (id :: since ++ [id]) ++ before := by simp [hpath]
  rw [htake]
  have hreverse : id :: since.reverse ++ [id] = (id :: since ++ [id]).reverse := by simp
  refine ⟨⟨id, since.reverse, rfl⟩, ?_, ?_, ?_⟩
  · have hdistinct := h.distinct
    rw [hpath, List.nodup_append] at hdistinct
    rw [List.dropLast_concat, List.nodup_cons, List.mem_reverse, List.nodup_reverse]
    exact ⟨hsince, hdistinct.1⟩
  · rw [hreverse]
    intro x hx
    exact h.within (hround ▸ List.mem_append_left before (List.mem_reverse.mp hx))
  · have hlinked := h.linked
    rw [hround] at hlinked
    rw [hreverse, List.isChain_reverse]
    exact hlinked.left_of_append

/-- Searching on from an id of the path reports a cycle. -/
theorem search_of_mem (fuel : Nat) (cleared : List String) (h : id ∈ path) :
    g.search fuel path cleared id =
      .error (id :: (path.takeWhile (· != id)).reverse ++ [id]) := by
  unfold search
  rw [if_pos (List.contains_iff_mem.mpr h)]

theorem search_of_cleared (fuel : Nat) {cleared : List String} (hnew : id ∉ path)
    (h : id ∈ cleared) : g.search fuel path cleared id = .ok cleared := by
  unfold search
  rw [if_neg (mt List.contains_iff_mem.mp hnew), if_pos (List.contains_iff_mem.mpr h)]

/-- Searching on from a new node: first from all its successors. -/
theorem search_of_new (fuel : Nat) {cleared : List String} (hnew : id ∉ path)
    (h : id ∉ cleared) : g.search (fuel + 1) path cleared id = do
      let cleared ← searchAll (g.search fuel (id :: path)) cleared (g.successors id)
      return id :: cleared := by
  rw [search, if_neg (mt List.contains_iff_mem.mp hnew), if_neg (mt List.contains_iff_mem.mp h)]

/-- A search from several nodes reports what the search from one of them
reports. -/
theorem searchAll_error {visit : List String → String → Except (List String) (List String)}
    {cycle : List String} : ∀ {ids cleared : List String},
      searchAll visit cleared ids = .error cycle →
      ∃ id ∈ ids, ∃ cleared, visit cleared id = .error cycle
  | id :: rest, cleared, h => by
    cases hone : visit cleared id with
    | error found =>
      have heq : found = cycle := by
        simpa [searchAll, hone, bind, Except.bind] using h
      exact ⟨id, List.mem_cons_self, cleared, heq ▸ hone⟩
    | ok more =>
      have hrest : searchAll visit more rest = .error cycle := by
        simpa [searchAll, hone, bind, Except.bind] using h
      obtain ⟨x, hx, hfound⟩ := searchAll_error hrest
      exact ⟨x, List.mem_cons_of_mem _ hx, hfound⟩

/-- **What a search reports is a cycle.** -/
theorem search_error (closed : ∀ id, g.successors id ⊆ g.ids) (fuel : Nat) :
    ∀ {path cleared cycle : List String} {id : String}, g.IsWay path id →
      g.search fuel path cleared id = .error cycle → g.IsCycle cycle := by
  induction fuel with
  | zero =>
    intro path cleared cycle id hway h
    by_cases hmem : id ∈ path
    · rw [search_of_mem _ _ hmem] at h
      cases h
      exact hway.closes hmem
    · simp [search, hmem] at h
  | succ fuel ih =>
    intro path cleared cycle id hway h
    by_cases hmem : id ∈ path
    · rw [search_of_mem _ _ hmem] at h
      cases h
      exact hway.closes hmem
    by_cases hcleared : id ∈ cleared
    · rw [search_of_cleared _ hmem hcleared] at h
      cases h
    rw [search_of_new _ hmem hcleared] at h
    cases hall : searchAll (g.search fuel (id :: path)) cleared (g.successors id) with
    | ok more =>
      rw [hall] at h
      cases h
    | error found =>
      rw [hall] at h
      cases h
      obtain ⟨target, ht, _, hfound⟩ := searchAll_error hall
      exact ih (hway.step hmem (mem_successors.mp ht) (closed id ht)) hfound

/-- In a ranked graph nothing leads back to where it came from. -/
theorem Ranked.not_transGen {rank : String → Nat} (h : g.Ranked rank) (id : String) :
    ¬Relation.TransGen g.Links id id := by
  have hgrows : ∀ {target : String}, Relation.TransGen g.Links id target →
      rank id < rank target := by
    intro target hpath
    induction hpath with
    | single hlink =>
      obtain ⟨c, hc, rfl, rfl⟩ := hlink
      exact h c hc
    | tail _ hlink ih =>
      obtain ⟨c, hc, rfl, rfl⟩ := hlink
      exact Nat.lt_trans ih (h c hc)
  exact fun hpath => Nat.lt_irrefl _ (hgrows hpath)

end

/-! ## The loop -/

/-- A search without calls. -/
structure Loop where
  /-- The nodes in hand, the last one first, each with those of its successors
  that are still to be looked at. -/
  stack : List (String × List String)
  /-- The nodes that it has left for good, the last one first. -/
  cleared : List String
  /-- The nodes that it may still begin with. -/
  roots : List String

namespace Loop

/-- The nodes in hand. -/
def path (l : Loop) : List String :=
  l.stack.map (·.1)

/-- One step: the answer, or the loop behind it. -/
def step (g : Graph) (l : Loop) : Option (List String) ⊕ Loop :=
  match l.stack with
  | [] =>
    match l.roots with
    | [] => .inl none
    | root :: roots =>
      if l.cleared.contains root then .inr { l with roots }
      else .inr { l with stack := [(root, g.successors root)], roots }
  | (id, []) :: stack => .inr { l with stack, cleared := id :: l.cleared }
  | (id, next :: pending) :: stack =>
    if l.path.contains next then
      .inl (some (next :: (l.path.takeWhile (· != next)).reverse ++ [next]))
    else if l.cleared.contains next then .inr { l with stack := (id, pending) :: stack }
    else .inr { l with stack := (next, g.successors next) :: (id, pending) :: stack }

/-- The answer, if the loop comes to one within so many steps. -/
def run (g : Graph) : Nat → Loop → Option (Option (List String))
  | 0, _ => none
  | steps + 1, l =>
    match l.step g with
    | .inl answer => some answer
    | .inr l => run g steps l

/-- A loop that has done nothing yet. -/
def start (g : Graph) : Loop where
  stack := []
  cleared := []
  roots := g.ids

/-! ### What a search by calls comes to -/

/-- What comes of the calls that are pending: those for the successors of each
node in hand, from the last one back to the first. -/
def unwind (g : Graph) : List String → List (String × List String) →
    Except (List String) (List String)
  | cleared, [] => .ok cleared
  | cleared, (id, pending) :: stack => do
    let path := id :: stack.map (·.1)
    let cleared ← searchAll (g.search (g.size - path.length) path) cleared pending
    unwind g (id :: cleared) stack

theorem unwind_nil (g : Graph) (cleared : List String) : unwind g cleared [] = pure cleared := rfl

theorem unwind_cons (g : Graph) (cleared : List String) (id : String) (pending : List String)
    (stack : List (String × List String)) : unwind g cleared ((id, pending) :: stack) = (do
      let path := id :: stack.map (·.1)
      let cleared ← searchAll (g.search (g.size - path.length) path) cleared pending
      unwind g (id :: cleared) stack) := rfl

/-- What comes of the search, by calls from here on. -/
def answer (g : Graph) (l : Loop) : Except (List String) (List String) := do
  let cleared ← unwind g l.cleared l.stack
  searchAll (g.search g.size []) cleared l.roots

/-- What a search reports. -/
def reported : Except (List String) (List String) → Option (List String)
  | .error cycle => some cycle
  | .ok _ => none

/-! ### What is left to do -/

/-- The work that the nodes make which have not been in hand yet. -/
def unseen (g : Graph) (seen : List String) : Nat :=
  ∑ id ∈ g.ids.toFinset \ seen.toFinset, ((g.successors id).length + 2)

/-- The work that is left: to look at what is pending, to leave the nodes in
hand, to look at the roots, and all this for the nodes to come. -/
def work (g : Graph) (l : Loop) : Nat :=
  (l.stack.map fun e => e.2.length + 1).sum + l.roots.length + unseen g (l.path ++ l.cleared)

/-- A node that is seen takes its work along. -/
theorem unseen_cons (g : Graph) {seen : List String} {id : String} (hid : id ∈ g.ids)
    (hnew : id ∉ seen) :
    unseen g (id :: seen) + ((g.successors id).length + 2) = unseen g seen := by
  unfold unseen
  rw [List.toFinset_cons, Finset.sdiff_insert]
  exact Finset.sum_erase_add _ _ (by simp [hid, hnew])

/-- Each connection is looked at from its source. -/
theorem sum_successors_le (g : Graph) (ids : Finset String) :
    ∑ id ∈ ids, (g.successors id).length ≤ g.connections.length := by
  have hle : ∀ id, (g.successors id).length ≤
      (g.connections.filter fun c => c.source == id).length := fun id => by
    refine Nat.le_trans (length_firsts_le _ _) ?_
    simp [Routing.follows]
  refine Nat.le_trans (Finset.sum_le_sum fun id _ => hle id) ?_
  induction g.connections with
  | nil => simp
  | cons c rest ih =>
    have hone : ∑ id ∈ ids, (if c.source = id then 1 else 0) ≤ 1 := by
      rw [Finset.sum_ite_eq]
      split <;> simp
    have hsplit : ∀ id, ((c :: rest).filter fun c => c.source == id).length =
        (if c.source = id then 1 else 0) + (rest.filter fun c => c.source == id).length := by
      intro id
      by_cases hsource : c.source = id
      · simp [hsource, Nat.add_comm]
      · simp [hsource]
    rw [Finset.sum_congr rfl fun id _ => hsplit id, Finset.sum_add_distrib, List.length_cons]
    omega

/-- The work of a whole search is linear in the nodes and the connections. -/
theorem work_start_le (g : Graph) : work g (start g) ≤ 3 * g.size + g.connections.length := by
  have hcard : g.ids.toFinset.card ≤ g.size := length_ids g ▸ List.toFinset_card_le g.ids
  have hsum := sum_successors_le g g.ids.toFinset
  have hunseen : unseen g [] =
      ∑ id ∈ g.ids.toFinset, (g.successors id).length + g.ids.toFinset.card * 2 := by
    simp [unseen, Finset.sum_add_distrib]
  have hroots : (start g).roots.length = g.size := length_ids g
  unfold work
  rw [hroots]
  simp only [start, path, List.map_nil, List.sum_nil, List.nil_append]
  omega

/-! ### What a step does -/

/-- What is on the stack are ids of the graph, and none of them is in hand
twice. -/
structure Sound (g : Graph) (l : Loop) : Prop where
  distinct : l.path.Nodup
  path : l.path ⊆ g.ids
  pending : ∀ e ∈ l.stack, e.2 ⊆ g.ids
  roots : l.roots ⊆ g.ids

theorem sound_start (g : Graph) : Sound g (start g) where
  distinct := List.nodup_nil
  path := List.nil_subset _
  pending := fun _ he => by cases he
  roots := List.Subset.refl _

/-- A call for a new node: its successors are searched with the fuel that the
longer path leaves. -/
theorem Sound.search_of_push {g : Graph} {l : Loop} (h : l.Sound g) {id : String}
    (hid : id ∈ g.ids) (hnew : id ∉ l.path) (hcleared : id ∉ l.cleared) :
    g.search (g.size - l.path.length) l.path l.cleared id = do
      let path := id :: l.path
      let cleared ← searchAll (g.search (g.size - path.length) path) l.cleared (g.successors id)
      return id :: cleared := by
  have hlt := length_path_lt h.distinct h.path hid hnew
  have hfuel : g.size - l.path.length = g.size - (id :: l.path).length + 1 := by
    rw [List.length_cons]
    omega
  rw [hfuel, search_of_new _ hnew hcleared]

/-- A step that is not the last one: it takes some of the work, and a search by
calls comes to the same from behind it. -/
structure Goes (g : Graph) (l l' : Loop) : Prop where
  sound : l'.Sound g
  answer : l'.answer g = l.answer g
  work : l'.work g < l.work g

section

variable {g : Graph} {id next : String} {pending cleared roots : List String}
  {stack : List (String × List String)}

/-- A root that was cleared meanwhile is passed over. -/
theorem Sound.passes (h : Sound g ⟨[], cleared, id :: roots⟩) (hcleared : id ∈ cleared) :
    Goes g ⟨[], cleared, id :: roots⟩ ⟨[], cleared, roots⟩ where
  sound := ⟨h.distinct, h.path, h.pending, (List.cons_subset.mp h.roots).2⟩
  answer := by
    have hsearch := search_of_cleared (g := g) g.size List.not_mem_nil hcleared
    simp only [Loop.answer, unwind_nil, pure_bind, searchAll, hsearch]
    rfl
  work := by
    simp [Loop.work, Loop.path]

/-- The search begins from a root. -/
theorem Sound.begins (h : Sound g ⟨[], cleared, id :: roots⟩)
    (closed : ∀ id, g.successors id ⊆ g.ids) (hnew : id ∉ cleared) :
    Goes g ⟨[], cleared, id :: roots⟩ ⟨[(id, g.successors id)], cleared, roots⟩ where
  sound := by
    obtain ⟨hid, hroots⟩ := List.cons_subset.mp h.roots
    refine ⟨List.nodup_singleton id, ?_, ?_, hroots⟩
    · exact List.cons_subset.mpr ⟨hid, List.nil_subset _⟩
    · exact List.forall_mem_singleton.mpr (closed id)
  answer := by
    have hsearch := h.search_of_push (h.roots List.mem_cons_self) List.not_mem_nil hnew
    simp only [Loop.path, List.map_nil, List.length_nil, Nat.sub_zero] at hsearch
    simp only [Loop.answer, unwind_cons, unwind_nil, List.map_nil, searchAll, hsearch, bind_assoc,
      pure_bind]
  work := by
    have hunseen := unseen_cons g (h.roots List.mem_cons_self) hnew
    simp only [Loop.work, Loop.path, List.map_cons, List.map_nil, List.sum_cons, List.sum_nil,
      List.cons_append, List.nil_append, List.length_cons]
    omega

/-- A node is left when nothing of it is pending. -/
theorem Sound.leaves (h : Sound g ⟨(id, []) :: stack, cleared, roots⟩) :
    Goes g ⟨(id, []) :: stack, cleared, roots⟩ ⟨stack, id :: cleared, roots⟩ where
  sound :=
    ⟨(List.nodup_cons.mp h.distinct).2, (List.cons_subset.mp h.path).2,
      (List.forall_mem_cons.mp h.pending).2, h.roots⟩
  answer := rfl
  work := by
    have hsame : unseen g (stack.map (·.1) ++ id :: cleared) =
        unseen g (id :: (stack.map (·.1) ++ cleared)) := by
      unfold unseen
      congr 2
      ext x
      simp
    simp only [Loop.work, Loop.path, List.map_cons, List.sum_cons, List.cons_append,
      List.length_nil, hsame]
    omega

/-- A successor that was cleared before is passed over. -/
theorem Sound.skips (h : Sound g ⟨(id, next :: pending) :: stack, cleared, roots⟩)
    (hpath : next ∉ id :: stack.map (·.1)) (hcleared : next ∈ cleared) :
    Goes g ⟨(id, next :: pending) :: stack, cleared, roots⟩
      ⟨(id, pending) :: stack, cleared, roots⟩ where
  sound := by
    obtain ⟨hpending, hstack⟩ := List.forall_mem_cons.mp h.pending
    refine ⟨h.distinct, h.path, ?_, h.roots⟩
    exact List.forall_mem_cons.mpr ⟨(List.cons_subset.mp hpending).2, hstack⟩
  answer := by
    simp only [Loop.answer, unwind_cons, searchAll, search_of_cleared _ hpath hcleared]
    rfl
  work := by
    simp only [Loop.work, Loop.path, List.map_cons, List.sum_cons, List.length_cons]
    omega

/-- The search goes down to a successor. -/
theorem Sound.descends (h : Sound g ⟨(id, next :: pending) :: stack, cleared, roots⟩)
    (closed : ∀ id, g.successors id ⊆ g.ids) (hpath : next ∉ id :: stack.map (·.1))
    (hnew : next ∉ cleared) :
    Goes g ⟨(id, next :: pending) :: stack, cleared, roots⟩
      ⟨(next, g.successors next) :: (id, pending) :: stack, cleared, roots⟩ where
  sound := by
    obtain ⟨hpending, hstack⟩ := List.forall_mem_cons.mp h.pending
    obtain ⟨hnext, hrest⟩ := List.cons_subset.mp hpending
    refine ⟨List.nodup_cons.mpr ⟨hpath, h.distinct⟩, List.cons_subset.mpr ⟨hnext, h.path⟩, ?_,
      h.roots⟩
    exact List.forall_mem_cons.mpr ⟨closed next, List.forall_mem_cons.mpr ⟨hrest, hstack⟩⟩
  answer := by
    have hnext : next ∈ g.ids := h.pending _ List.mem_cons_self List.mem_cons_self
    have hsearch := h.search_of_push hnext hpath hnew
    simp only [Loop.path, List.map_cons] at hsearch
    simp only [Loop.answer, unwind_cons, List.map_cons, searchAll, hsearch, bind_assoc, pure_bind]
  work := by
    have hnext : next ∈ g.ids := h.pending _ List.mem_cons_self List.mem_cons_self
    have hnot : next ∉ (id :: stack.map (·.1)) ++ cleared := by simp_all
    have hunseen := unseen_cons g hnext hnot
    simp only [Loop.work, Loop.path, List.map_cons, List.sum_cons, List.cons_append,
      List.length_cons] at hunseen ⊢
    omega

end

/-- **No step changes what comes of the search**, and the last one tells it. -/
theorem Sound.step {g : Graph} {l : Loop} (h : l.Sound g)
    (closed : ∀ id, g.successors id ⊆ g.ids) :
    match l.step g with
    | .inl answer => answer = reported (l.answer g)
    | .inr l' => Goes g l l' := by
  obtain ⟨stack, cleared, roots⟩ := l
  match stack, roots with
  | [], [] => rfl
  | [], id :: roots =>
    dsimp only [Loop.step]
    by_cases hcleared : id ∈ cleared
    · rw [if_pos (List.contains_iff_mem.mpr hcleared)]
      exact h.passes hcleared
    · rw [if_neg (mt List.contains_iff_mem.mp hcleared)]
      exact h.begins closed hcleared
  | (id, []) :: stack, roots => exact h.leaves
  | (id, next :: pending) :: stack, roots =>
    let l : Loop := ⟨(id, next :: pending) :: stack, cleared, roots⟩
    dsimp only [Loop.step]
    by_cases hpath : next ∈ l.path
    · rw [if_pos (List.contains_iff_mem.mpr hpath)]
      have hsearch : g.search (g.size - l.path.length) l.path cleared next = _ :=
        search_of_mem _ _ hpath
      simp only [l, Loop.path, List.map_cons] at hsearch
      simp only [Loop.answer, unwind_cons, searchAll, hsearch]
      rfl
    rw [if_neg (mt List.contains_iff_mem.mp hpath)]
    by_cases hcleared : next ∈ cleared
    · rw [if_pos (List.contains_iff_mem.mpr hcleared)]
      exact h.skips hpath hcleared
    · rw [if_neg (mt List.contains_iff_mem.mp hcleared)]
      exact h.descends closed hpath hcleared

/-- The loop ends before its work is used up. -/
theorem Sound.run {g : Graph} (closed : ∀ id, g.successors id ⊆ g.ids) (steps : Nat) :
    ∀ {l : Loop}, l.Sound g → l.work g < steps → l.run g steps = some (reported (l.answer g)) := by
  induction steps with
  | zero => exact fun _ hwork => absurd hwork (Nat.not_lt_zero _)
  | succ steps ih =>
    intro l h hwork
    have hstep := h.step closed
    unfold Loop.run
    cases hl : l.step g with
    | inl answer =>
      rw [hl] at hstep
      exact congrArg some hstep
    | inr l' =>
      rw [hl] at hstep
      dsimp only
      rw [ih hstep.sound (by have := hstep.work; omega), hstep.answer]

end Loop

/-! ## Graphs of workflows -/

/-- **The search for a cycle is exact.** If it reports ids, then these go around a
cycle: the last one is the first one again, the others are the ids of
distinct nodes, and each one is connected to the next. If it reports none,
nothing leads from a node back to itself. And it needs no calls: a loop
with a stack ends with the same answer, after steps that are linear in the
number of nodes and connections. -/
theorem cycle?_exact (w : Workflow) :
    let g := ofWorkflow w
    (match g.cycle? with
      | some ids => g.IsCycle ids
      | none => ∀ id, ¬Relation.TransGen g.Links id id) ∧
    ∀ steps, 3 * w.nodes.length + w.connections.length < steps →
      (Loop.start g).run g steps = some g.cycle? := by
  intro g
  have closed : ∀ id, g.successors id ⊆ g.ids := next_subset w .all
  constructor
  · cases hcycle : g.cycle? with
    | some ids =>
      unfold cycle? at hcycle
      split at hcycle
      · next hall =>
        cases hcycle
        obtain ⟨id, hid, _, hfound⟩ := searchAll_error hall
        refine search_error closed g.size ⟨List.nodup_nil, ?_, List.isChain_singleton _⟩ hfound
        exact List.cons_subset.mpr ⟨hid, List.nil_subset _⟩
      · cases hcycle
    | none =>
      have hends : ∀ c ∈ g.connections, c.source ∈ g.ids ∧ c.target ∈ g.ids := by
        intro c hc
        have hdeclared := Bool.and_eq_true_iff.mp (List.mem_filter.mp hc).2
        exact ⟨mem_ids_of_declares hdeclared.1, mem_ids_of_declares hdeclared.2⟩
      obtain ⟨rank, hrank⟩ := (cycle?_eq_none_iff hends).mp hcycle
      exact hrank.not_transGen
  · intro steps hsteps
    have hwork := Loop.work_start_le g
    have hnodes : g.size ≤ w.nodes.length := length_firstNodes_le [] w.nodes
    have hconnections : g.connections.length ≤ w.connections.length := List.length_filter_le _ _
    rw [(Loop.sound_start g).run closed steps (by omega)]
    rfl

end Automation.Graph
