/-
Automation.Proofs.Workflow.GraphTheorems — what the graph of a workflow
leads to.

A graph keeps the first node of each id and the connections with both ends
declared. So the connections of a graph stay within its nodes
(`Graph.next_subset`), and `Graph.next` lists the targets of the
connections that are followed, no more and no fewer (`Graph.mem_next`).
-/
import Automation.Workflow.Graph

namespace Automation

/-! ## First occurrences -/

theorem mem_firsts {id : String} : ∀ {seen ids : List String},
    id ∈ firsts seen ids ↔ id ∈ ids ∧ id ∉ seen
  | seen, [] => by simp [firsts]
  | seen, first :: rest => by
    unfold firsts
    by_cases hid : id = first
    · subst hid
      by_cases hc : id ∈ seen
      · simp [hc, mem_firsts]
      · simp [hc]
    · split
      · simp [hid, mem_firsts]
      · simp [hid, mem_firsts]

theorem length_firsts_le : ∀ seen ids : List String, (firsts seen ids).length ≤ ids.length
  | _, [] => Nat.le_refl _
  | seen, id :: rest => by
    unfold firsts
    split
    · exact Nat.le_succ_of_le (length_firsts_le seen rest)
    · exact Nat.succ_le_succ (length_firsts_le (id :: seen) rest)

theorem exists_firstNodes {id : String} :
    ∀ {seen : List String} {nodes : List Node}, id ∉ seen → id ∈ nodes.map (·.id) →
      id ∈ (firstNodes seen nodes).map (·.id)
  | seen, node :: rest, hseen, h => by
    unfold firstNodes
    split
    · next hc =>
      refine exists_firstNodes hseen ?_
      rcases List.mem_cons.mp h with rfl | h
      · exact absurd (List.contains_iff_mem.mp hc) hseen
      · exact h
    · by_cases hid : id = node.id
      · exact List.mem_cons.mpr (Or.inl hid)
      · refine List.mem_cons_of_mem _ (exists_firstNodes ?_ ?_)
        · simp [hid, hseen]
        · exact (List.mem_cons.mp h).resolve_left hid

theorem length_firstNodes_le : ∀ (seen : List String) (nodes : List Node),
    (firstNodes seen nodes).length ≤ nodes.length
  | _, [] => Nat.le_refl _
  | seen, node :: rest => by
    unfold firstNodes
    split
    · exact Nat.le_succ_of_le (length_firstNodes_le seen rest)
    · exact Nat.succ_le_succ (length_firstNodes_le (node.id :: seen) rest)

theorem firstNodes_subset : ∀ (seen : List String) (nodes : List Node),
    firstNodes seen nodes ⊆ nodes
  | _, [] => List.Subset.refl _
  | seen, node :: rest => by
    unfold firstNodes
    split
    · exact List.subset_cons_of_subset node (firstNodes_subset seen rest)
    · exact List.cons_subset_cons node (firstNodes_subset (node.id :: seen) rest)

/-- Nodes of distinct ids are all first. -/
theorem firstNodes_eq_self : ∀ {seen : List String} {nodes : List Node},
    (nodes.map (·.id)).Nodup → (∀ node ∈ nodes, node.id ∉ seen) → firstNodes seen nodes = nodes
  | _, [], _, _ => rfl
  | seen, node :: rest, hd, hseen => by
    have hnode : node.id ∉ seen := hseen node List.mem_cons_self
    obtain ⟨hout, hrest⟩ := List.nodup_cons.mp hd
    have ih : firstNodes (node.id :: seen) rest = rest := by
      refine firstNodes_eq_self hrest ?_
      intro n hn
      rw [List.mem_cons, not_or]
      refine ⟨fun heq => hout ?_, hseen n (List.mem_cons_of_mem _ hn)⟩
      exact List.mem_map.mpr ⟨n, hn, heq⟩
    unfold firstNodes
    rw [if_neg (by simpa using hnode), ih]

namespace Graph

/-! ## Nodes -/

/-- The ids of the nodes of a graph. -/
def ids (g : Graph) : List String :=
  g.nodes.map (·.id)

theorem length_ids (g : Graph) : g.ids.length = g.size := by
  simp [ids, size]

theorem starts_subset (g : Graph) : g.starts ⊆ g.ids :=
  fun _ h => (List.mem_filter.mp h).1

theorem node?_some {g : Graph} {id : String} {node : Node} (h : g.node? id = some node) :
    node ∈ g.nodes ∧ node.id = id := by
  unfold node? at h
  exact ⟨List.mem_of_find?_eq_some h, by simpa using List.find?_some h⟩

/-- There is a node for each id of the graph. -/
theorem exists_node? {g : Graph} {id : String} (h : id ∈ g.ids) :
    ∃ node, g.node? id = some node := by
  obtain ⟨node, hnode, hid⟩ := List.mem_map.mp h
  cases hn : g.node? id with
  | some n => exact ⟨n, rfl⟩
  | none => exact absurd (beq_iff_eq.mpr hid) (List.find?_eq_none.mp hn node hnode)

/-- What is declared has a node in the graph. -/
theorem mem_ids_of_declares {w : Workflow} {id : String} (h : w.declares id = true) :
    id ∈ (ofWorkflow w).ids := by
  obtain ⟨node, hnode, hid⟩ := List.any_eq_true.mp h
  refine exists_firstNodes List.not_mem_nil (List.mem_map.mpr ⟨node, hnode, ?_⟩)
  exact beq_iff_eq.mp hid

/-! ## Connections -/

/-- The targets of the connections that are followed. -/
theorem mem_next {g : Graph} {routing : Routing} {id target : String} :
    target ∈ g.next routing id ↔
      ∃ c ∈ g.connections, c.source = id ∧ routing.follows c = true ∧ c.target = target := by
  unfold next
  rw [mem_firsts]
  simp only [List.mem_map, List.mem_filter, Bool.and_eq_true, beq_iff_eq, List.not_mem_nil,
    not_false_eq_true, and_true]
  constructor
  · rintro ⟨c, ⟨hc, hs, hf⟩, ht⟩
    exact ⟨c, hc, hs, hf, ht⟩
  · rintro ⟨c, hc, hs, hf, ht⟩
    exact ⟨c, ⟨hc, hs, hf⟩, ht⟩

/-- Connections of the graph lead to its nodes. -/
theorem next_subset (w : Workflow) (routing : Routing) (id : String) :
    (ofWorkflow w).next routing id ⊆ (ofWorkflow w).ids := by
  intro target h
  obtain ⟨c, hc, _, _, rfl⟩ := mem_next.mp h
  have hends := (List.mem_filter.mp hc).2
  exact mem_ids_of_declares (Bool.and_eq_true_iff.mp hends).2

end Graph

end Automation
