/-
Automation.Proofs.Workflow.CycleTheorems — the search finds a cycle
exactly when there is one.

That a graph has no cycle is said by a ranking: a number for each id that
grows along every connection (`Graph.Ranked`). A search finds no cycle in
a ranked graph, since the ranks grow along its path too
(`Graph.search_ok`). The other way round, a search that finds none leaves
behind the ids it cleared, each after all its successors
(`Graph.Cleared`), and the place of an id in that list is a ranking. The
fuel does not run out before, since the ids of a path are distinct.
Together, `Graph.cycle?_eq_none_iff`.
-/
import Mathlib.Data.List.Basic
import Mathlib.Data.List.Perm.Subperm
import Automation.Proofs.Workflow.GraphTheorems
import Automation.Workflow.Cycle

namespace Automation.Graph

/-- The ranks grow along every connection. -/
def Ranked (g : Graph) (rank : String → Nat) : Prop :=
  ∀ c ∈ g.connections, rank c.source < rank c.target

theorem Ranked.successor {g : Graph} {rank : String → Nat} (h : g.Ranked rank)
    {id target : String} (ht : target ∈ g.successors id) : rank id < rank target := by
  obtain ⟨c, hc, rfl, -, rfl⟩ := mem_next.mp ht
  exact h c hc

/-! ## No cycle is found in a ranked graph -/

/-- A search from several nodes ends well if each of its searches does. -/
theorem searchAll_ok {visit : List String → String → Except (List String) (List String)} :
    ∀ {ids : List String}, (∀ id ∈ ids, ∀ cleared, ∃ more, visit cleared id = .ok more) →
      ∀ cleared, ∃ more, searchAll visit cleared ids = .ok more
  | [], _, cleared => ⟨cleared, rfl⟩
  | id :: rest, h, cleared => by
    obtain ⟨more, hmore⟩ := h id List.mem_cons_self cleared
    obtain ⟨last, hlast⟩ := searchAll_ok (fun x hx => h x (List.mem_cons_of_mem _ hx)) more
    exact ⟨last, by simp [searchAll, hmore, hlast, bind, Except.bind]⟩

/-- A search whose path ranks below its node meets no cycle. -/
theorem search_ok {g : Graph} {rank : String → Nat} (h : g.Ranked rank) (fuel : Nat) :
    ∀ {path cleared : List String} {id : String}, (∀ x ∈ path, rank x < rank id) →
      ∃ more, g.search fuel path cleared id = .ok more := by
  induction fuel with
  | zero =>
    intro path cleared id hpath
    have hid : id ∉ path := fun hm => Nat.lt_irrefl _ (hpath id hm)
    exact ⟨cleared, by simp [search, hid]⟩
  | succ fuel ih =>
    intro path cleared id hpath
    have hid : id ∉ path := fun hm => Nat.lt_irrefl _ (hpath id hm)
    by_cases hc : id ∈ cleared
    · exact ⟨cleared, by simp [search, hid, hc]⟩
    · have hall : ∀ target ∈ g.successors id, ∀ cleared,
          ∃ more, g.search fuel (id :: path) cleared target = .ok more := by
        intro target ht cleared
        have hstep := h.successor ht
        refine ih fun x hx => ?_
        rcases List.mem_cons.mp hx with rfl | hx
        · exact hstep
        · exact Nat.lt_trans (hpath x hx) hstep
      obtain ⟨more, hmore⟩ := searchAll_ok hall cleared
      exact ⟨id :: more, by simp [search, hid, hc, hmore, bind, Except.bind, pure, Except.pure]⟩

/-! ## What a search has cleared -/

/-- Ids in the order in which a search clears them, the last one first:
each comes after all its successors. -/
inductive Cleared (g : Graph) : List String → Prop
  | nil : Cleared g []
  | cons {ids : List String} {id : String} (h : Cleared g ids) (new : id ∉ ids)
      (after : g.successors id ⊆ ids) : Cleared g (id :: ids)

/-- The place of an id grows along the connections that leave it. -/
theorem Cleared.idxOf_lt {g : Graph} {ids : List String} (h : Cleared g ids) :
    ∀ {id target : String}, id ∈ ids → target ∈ g.successors id →
      ids.idxOf id < ids.idxOf target ∧ target ∈ ids := by
  induction h with
  | nil => simp
  | @cons ids first h new after ih =>
    intro id target hid ht
    rcases List.mem_cons.mp hid with rfl | hid
    · have htarget : target ∈ ids := after ht
      have hne : id ≠ target := fun heq => new (heq ▸ htarget)
      rw [List.idxOf_cons_self, List.idxOf_cons_ne _ hne]
      exact ⟨Nat.succ_pos _, List.mem_cons_of_mem _ htarget⟩
    · obtain ⟨hlt, htarget⟩ := ih hid ht
      have hne : first ≠ id := fun heq => new (heq ▸ hid)
      have hne' : first ≠ target := fun heq => new (heq ▸ htarget)
      rw [List.idxOf_cons_ne _ hne, List.idxOf_cons_ne _ hne']
      exact ⟨Nat.succ_lt_succ hlt, List.mem_cons_of_mem _ htarget⟩

/-- What a search that met no cycle has done: it cleared more, nothing of
its path, and all it was asked for. -/
structure Clears (g : Graph) (path cleared asked more : List String) : Prop where
  sound : Cleared g more
  apart : ∀ id ∈ path, id ∉ more
  keeps : cleared ⊆ more
  asked : asked ⊆ more

/-- Once all its successors are cleared, so is a node. -/
theorem Clears.leave {g : Graph} {path cleared more : List String} {id : String}
    (h : Clears g (id :: path) cleared (g.successors id) more) (hpath : id ∉ path) :
    Clears g path cleared [id] (id :: more) where
  sound := .cons h.sound (h.apart id List.mem_cons_self) h.asked
  apart x hx hm := by
    rcases List.mem_cons.mp hm with rfl | hm
    · exact hpath hx
    · exact h.apart x (List.mem_cons_of_mem _ hx) hm
  keeps x hx := List.mem_cons_of_mem _ (h.keeps hx)
  asked := by simp

/-- A search from several nodes does for all of them what it does for each. -/
theorem searchAll_clears {g : Graph} {path : List String}
    {visit : List String → String → Except (List String) (List String)} :
    ∀ {ids cleared more : List String},
      (∀ id ∈ ids, ∀ {cleared more}, Cleared g cleared → (∀ x ∈ path, x ∉ cleared) →
        visit cleared id = .ok more → Clears g path cleared [id] more) →
      Cleared g cleared → (∀ x ∈ path, x ∉ cleared) →
      searchAll visit cleared ids = .ok more → Clears g path cleared ids more
  | [], cleared, more, _, hc, hp, h => by
    cases h
    exact ⟨hc, hp, List.Subset.refl _, List.nil_subset _⟩
  | id :: rest, cleared, more, hv, hc, hp, h => by
    cases hone : visit cleared id with
    | error cycle => simp [searchAll, hone, bind, Except.bind] at h
    | ok between =>
      have hrest : searchAll visit between rest = .ok more := by
        simpa [searchAll, hone, bind, Except.bind] using h
      have first := hv id List.mem_cons_self hc hp hone
      have last := searchAll_clears (fun x hx => hv x (List.mem_cons_of_mem _ hx))
        first.sound first.apart hrest
      refine ⟨last.sound, last.apart, List.Subset.trans first.keeps last.keeps, ?_⟩
      exact List.cons_subset.mpr ⟨last.keeps (first.asked List.mem_cons_self), last.asked⟩

/-- A path of distinct ids of the graph that leads to one more leaves fuel. -/
theorem length_path_lt {g : Graph} {path : List String} {id : String} (hd : path.Nodup)
    (hsub : path ⊆ g.ids) (hid : id ∈ g.ids) (hnew : id ∉ path) : path.length < g.size := by
  have hcons : (id :: path).Subperm g.ids :=
    List.subperm_of_subset (List.nodup_cons.mpr ⟨hnew, hd⟩) (List.cons_subset.mpr ⟨hid, hsub⟩)
  have hle := hcons.length_le
  rwa [length_ids] at hle

/-- A search that meets no cycle has cleared its node, with everything
that its node leads to. -/
theorem search_clears {g : Graph} (closed : ∀ id, g.successors id ⊆ g.ids) (fuel : Nat) :
    ∀ {path cleared more : List String} {id : String},
      path.Nodup → path ⊆ g.ids → g.size ≤ fuel + path.length → id ∈ g.ids →
      Cleared g cleared → (∀ x ∈ path, x ∉ cleared) →
      g.search fuel path cleared id = .ok more → Clears g path cleared [id] more := by
  induction fuel with
  | zero =>
    intro path cleared more id hd hsub hfuel hid hc hp h
    have hpath : id ∉ path := by
      intro hm
      simp [search, hm] at h
    have hlt := length_path_lt hd hsub hid hpath
    omega
  | succ fuel ih =>
    intro path cleared more id hd hsub hfuel hid hc hp h
    have hpath : id ∉ path := by
      intro hm
      simp [search, hm] at h
    by_cases hcleared : id ∈ cleared
    · have hmore : cleared = more := by simpa [search, hpath, hcleared] using h
      subst hmore
      exact ⟨hc, hp, List.Subset.refl _, by simpa using hcleared⟩
    · cases hall : searchAll (g.search fuel (id :: path)) cleared (g.successors id) with
      | error cycle => simp [search, hpath, hcleared, hall, bind, Except.bind] at h
      | ok between =>
        have hmore : id :: between = more := by
          simpa [search, hpath, hcleared, hall, bind, Except.bind, pure, Except.pure] using h
        subst hmore
        have hpc : ∀ x ∈ id :: path, x ∉ cleared := by
          intro x hx
          rcases List.mem_cons.mp hx with rfl | hx
          · exact hcleared
          · exact hp x hx
        have below : Clears g (id :: path) cleared (g.successors id) between := by
          refine searchAll_clears (fun target ht {_ _} hc hp h => ?_) hc hpc hall
          refine ih (List.nodup_cons.mpr ⟨hpath, hd⟩) (List.cons_subset.mpr ⟨hid, hsub⟩) ?_
            (closed id ht) hc hp h
          simp only [List.length_cons]
          omega
        exact below.leave hpath

/-! ## Both ways -/

/-- No cycle is found exactly in the graphs that have a ranking. -/
theorem cycle?_eq_none_iff {g : Graph}
    (closed : ∀ c ∈ g.connections, c.source ∈ g.ids ∧ c.target ∈ g.ids) :
    g.cycle? = none ↔ ∃ rank, g.Ranked rank := by
  unfold cycle?
  constructor
  · intro h
    cases hall : searchAll (g.search g.size []) [] (g.nodes.map (·.id)) with
    | error cycle => simp [hall] at h
    | ok more =>
      have closed' : ∀ id, g.successors id ⊆ g.ids := by
        intro id target ht
        obtain ⟨c, hc, -, -, rfl⟩ := mem_next.mp ht
        exact (closed c hc).2
      have hclears : Clears g [] [] g.ids more := by
        refine searchAll_clears (fun id hid {_ _} hc hp h => ?_) .nil (by simp) hall
        exact search_clears closed' g.size List.nodup_nil (List.nil_subset _) (by simp) hid hc hp h
      refine ⟨more.idxOf, fun c hc => ?_⟩
      have hsucc : c.target ∈ g.successors c.source := mem_next.mpr ⟨c, hc, rfl, rfl, rfl⟩
      exact (hclears.sound.idxOf_lt (hclears.asked (closed c hc).1) hsucc).1
  · rintro ⟨rank, h⟩
    have hall : ∀ id ∈ g.ids, ∀ cleared, ∃ more, g.search g.size [] cleared id = .ok more :=
      fun _ _ _ => search_ok h g.size (by simp)
    obtain ⟨more, hmore⟩ := searchAll_ok hall []
    rw [ids] at hmore
    simp [hmore]

end Automation.Graph
