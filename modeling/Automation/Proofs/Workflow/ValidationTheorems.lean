/-
Automation.Proofs.Workflow.ValidationTheorems — what it means that a
workflow is valid.

A valid workflow has nodes of distinct ids, and connections between
declared nodes only, so nothing of it is lost in its graph
(`ofWorkflow_of_isValid`).

Its connections lead upwards in some ranking of the ids, and that is all
that the search for a cycle adds (`cycle?_ofWorkflow_eq_none_iff`). The
lowest node of a ranking is a start node, so the check for start nodes
adds nothing (`startNodes_ne_nil`). Hence what a report of a validation
says, `Workflow.validate_valid_iff`.
-/
import Mathlib.Data.List.MinMax
import Automation.Proofs.Workflow.CycleTheorems
import Automation.Workflow.Validation

namespace Automation

/-- No id is repeated if the ids are distinct, and new. -/
theorem repeats_eq_nil : ∀ {seen ids : List String},
    repeats seen ids = [] ↔ ids.Nodup ∧ ∀ id ∈ ids, id ∉ seen
  | seen, [] => by simp [repeats]
  | seen, id :: rest => by
    unfold repeats
    by_cases hc : id ∈ seen
    · simp [hc]
    · rw [if_neg (by simpa using hc), repeats_eq_nil, List.nodup_cons]
      constructor
      · rintro ⟨hd, hnew⟩
        refine ⟨⟨fun hm => hnew id hm List.mem_cons_self, hd⟩, ?_⟩
        intro x hx
        rcases List.mem_cons.mp hx with rfl | hx
        · exact hc
        · exact fun hs => hnew x hx (List.mem_cons_of_mem _ hs)
      · rintro ⟨⟨hout, hd⟩, hnew⟩
        refine ⟨hd, ?_⟩
        intro x hx hs
        rcases List.mem_cons.mp hs with rfl | hs
        · exact hout hx
        · exact hnew x (List.mem_cons_of_mem _ hx) hs

namespace Workflow

theorem endIssues_eq_nil {w : Workflow} {c : Connection} :
    w.endIssues c = [] ↔ w.declares c.source = true ∧ w.declares c.target = true := by
  simp [endIssues]

/-- A workflow is valid if each of the checks finds nothing. -/
theorem isValid_iff {w : Workflow} : w.isValid = true ↔
    Text.isAllBlank w.name = false ∧ w.nodes ≠ [] ∧ (w.nodes.map (·.id)).Nodup ∧
      (∀ c ∈ w.connections, w.declares c.source = true ∧ w.declares c.target = true) ∧
      w.startNodes ≠ [] ∧ (Graph.ofWorkflow w).cycle? = none := by
  have hif : ∀ (b : Bool) (i : Issue), (if b then [i] else []) = [] ↔ b = false := by
    intro b i
    cases b <;> simp
  simp only [isValid, issues, List.isEmpty_iff, List.append_eq_nil_iff, hif, List.map_eq_nil_iff,
    repeats_eq_nil, List.flatMap_eq_nil_iff, endIssues_eq_nil, Option.toList_eq_nil_iff,
    Option.map_eq_none_iff]
  by_cases hn : w.nodes = []
  · simp [hn]
  · simp [hn, and_assoc]

end Workflow

/-- Nothing of a valid workflow is lost in its graph. -/
theorem Graph.ofWorkflow_of_isValid {w : Workflow} (h : w.isValid = true) :
    ofWorkflow w = ⟨w.nodes, w.connections⟩ := by
  obtain ⟨_, _, hnodup, hends, _, _⟩ := Workflow.isValid_iff.mp h
  unfold ofWorkflow
  rw [firstNodes_eq_self hnodup fun _ _ => List.not_mem_nil, List.filter_eq_self.mpr]
  intro c hc
  simp [(hends c hc).1, (hends c hc).2]

/-- The graph of a valid workflow has the start nodes of the workflow. -/
theorem Graph.mem_starts {w : Workflow} (h : w.isValid = true) {id : String} :
    id ∈ (ofWorkflow w).starts ↔ ∃ node ∈ w.startNodes, node.id = id := by
  rw [ofWorkflow_of_isValid h]
  unfold starts Workflow.startNodes
  simp only [List.mem_filter, List.mem_map]
  constructor
  · rintro ⟨⟨node, hnode, rfl⟩, hstart⟩
    exact ⟨node, ⟨hnode, hstart⟩, rfl⟩
  · rintro ⟨node, ⟨hnode, hstart⟩, rfl⟩
    exact ⟨⟨node, hnode, rfl⟩, hstart⟩

/-! ## Rankings and start nodes -/

namespace Workflow

theorem declares_iff {w : Workflow} {id : String} :
    w.declares id = true ↔ ∃ node ∈ w.nodes, node.id = id := by
  simp [declares]

/-- The ends of all connections are declared. -/
def IsClosed (w : Workflow) : Prop :=
  ∀ c ∈ w.connections,
    (∃ node ∈ w.nodes, node.id = c.source) ∧ ∃ node ∈ w.nodes, node.id = c.target

/-- Some ranking of the ids grows along every connection. -/
def IsAcyclic (w : Workflow) : Prop :=
  ∃ rank : String → Nat, ∀ c ∈ w.connections, rank c.source < rank c.target

/-- The search finds a cycle in the graph of a workflow unless the
workflow has a ranking. -/
theorem cycle?_ofWorkflow_eq_none_iff {w : Workflow} (h : w.IsClosed) :
    (Graph.ofWorkflow w).cycle? = none ↔ w.IsAcyclic := by
  have hends : ∀ c ∈ w.connections, w.declares c.source = true ∧ w.declares c.target = true :=
    fun c hc => ⟨declares_iff.mpr (h c hc).1, declares_iff.mpr (h c hc).2⟩
  have hall : (Graph.ofWorkflow w).connections = w.connections := by
    refine List.filter_eq_self.mpr fun c hc => ?_
    simp [(hends c hc).1, (hends c hc).2]
  rw [Graph.cycle?_eq_none_iff]
  · simp [Graph.Ranked, IsAcyclic, hall]
  · intro c hc
    rw [hall] at hc
    exact ⟨Graph.mem_ids_of_declares (hends c hc).1, Graph.mem_ids_of_declares (hends c hc).2⟩

/-- A node of the lowest rank has no connection to it. -/
theorem startNodes_ne_nil {w : Workflow} (hn : w.nodes ≠ []) (hclosed : w.IsClosed)
    (hacyclic : w.IsAcyclic) : w.startNodes ≠ [] := by
  obtain ⟨rank, hrank⟩ := hacyclic
  obtain ⟨lowest, hlow⟩ : ∃ lowest, lowest ∈ w.nodes.argmin fun node => rank node.id :=
    Option.ne_none_iff_exists'.mp (mt List.argmin_eq_none.mp hn)
  refine List.ne_nil_of_mem (List.mem_filter.mpr ⟨List.argmin_mem hlow, ?_⟩)
  rw [Bool.not_eq_true', List.any_eq_false]
  intro c hc htarget
  obtain ⟨⟨node, hnode, hsource⟩, -⟩ := hclosed c hc
  have hup := hrank c hc
  rw [← hsource, beq_iff_eq.mp htarget] at hup
  exact Nat.not_lt.mpr (List.le_of_mem_argmin hnode hlow) hup

/-! ## Reports -/

theorem mem_errors {w : Workflow} {finding : Finding} :
    finding ∈ w.validate.errors ↔ ∃ issue ∈ w.issues, issue.finding .error = finding :=
  List.mem_map

theorem noStart_mem_issues {w : Workflow} :
    .noStart ∈ w.issues ↔ w.nodes ≠ [] ∧ w.startNodes = [] := by
  simp [issues, endIssues]

theorem cycle_mem_issues {w : Workflow} {ids : List String} :
    .cycle ids ∈ w.issues ↔ (Graph.ofWorkflow w).cycle? = some ids := by
  simp [issues, endIssues]

theorem endIssues_subset {w : Workflow} {c : Connection} (hc : c ∈ w.connections) :
    w.endIssues c ⊆ w.issues := by
  intro issue h
  have hall : issue ∈ w.connections.flatMap w.endIssues := List.mem_flatMap.mpr ⟨c, hc, h⟩
  simp [issues, hall]

/-- Unless an end is reported, all ends are declared. -/
theorem isClosed_or_undeclaredEnd (w : Workflow) :
    w.IsClosed ∨ ∃ c which id, .undeclaredEnd c which id ∈ w.issues := by
  refine or_iff_not_imp_right.mpr fun h c hc => ?_
  have hnil : w.endIssues c = [] := by
    refine List.eq_nil_iff_forall_not_mem.mpr fun issue hissue => h ?_
    obtain ⟨e, -, rfl⟩ := List.mem_map.mp hissue
    exact ⟨c.id, e.1, e.2, endIssues_subset hc hissue⟩
  obtain ⟨hsource, htarget⟩ := endIssues_eq_nil.mp hnil
  exact ⟨declares_iff.mp hsource, declares_iff.mp htarget⟩

/-- Without a start node there is a cycle, or an end that is not declared. -/
theorem noStart_accompanied {w : Workflow} (h : .noStart ∈ w.issues) :
    (∃ ids, .cycle ids ∈ w.issues) ∨ ∃ c which id, .undeclaredEnd c which id ∈ w.issues := by
  obtain ⟨hnodes, hstart⟩ := noStart_mem_issues.mp h
  refine (isClosed_or_undeclaredEnd w).imp_left fun hclosed => ?_
  have hcycle : (Graph.ofWorkflow w).cycle? ≠ none := fun hnone =>
    startNodes_ne_nil hnodes hclosed ((cycle?_ofWorkflow_eq_none_iff hclosed).mp hnone) hstart
  obtain ⟨ids, hids⟩ := Option.ne_none_iff_exists'.mp hcycle
  exact ⟨ids, cycle_mem_issues.mpr hids⟩

/-- A finding that reads like that of a workflow without a start node is
that one, or speaks of a cycle. -/
theorem noStart_of_finding {issue : Issue}
    (h : issue.finding .error = Issue.noStart.finding .error) :
    issue = .noStart ∨ issue = .cycle [] := by
  cases issue <;> simp_all [Issue.finding, Issue.category, Issue.node?]

/-- Validity, without the search. -/
theorem isValid_iff_isAcyclic {w : Workflow} : w.isValid = true ↔
    Text.isAllBlank w.name = false ∧ w.nodes ≠ [] ∧ (w.nodes.map (·.id)).Nodup ∧
      w.IsClosed ∧ w.IsAcyclic := by
  have hends : (∀ c ∈ w.connections, w.declares c.source = true ∧ w.declares c.target = true) ↔
      w.IsClosed := by
    simp only [IsClosed, declares_iff]
  rw [isValid_iff, hends]
  constructor
  · rintro ⟨hname, hnodes, hids, hclosed, -, hcycle⟩
    exact ⟨hname, hnodes, hids, hclosed, (cycle?_ofWorkflow_eq_none_iff hclosed).mp hcycle⟩
  · rintro ⟨hname, hnodes, hids, hclosed, hacyclic⟩
    exact ⟨hname, hnodes, hids, hclosed, startNodes_ne_nil hnodes hclosed hacyclic,
      (cycle?_ofWorkflow_eq_none_iff hclosed).mpr hacyclic⟩

/-- The ends of the connections, which is all that is asked of them. -/
def ends (w : Workflow) : List (String × String) :=
  w.connections.map fun c => (c.source, c.target)

theorem isClosed_iff {w : Workflow} : w.IsClosed ↔
    ∀ e ∈ w.ends, e.1 ∈ w.nodes.map (·.id) ∧ e.2 ∈ w.nodes.map (·.id) := by
  simp [IsClosed, ends]

theorem isAcyclic_iff {w : Workflow} : w.IsAcyclic ↔
    ∃ rank : String → Nat, ∀ e ∈ w.ends, rank e.1 < rank e.2 := by
  simp [IsAcyclic, ends]

/-- A report says that a workflow is valid exactly if its name has a
character that is not blank, it has nodes, their ids are distinct, the
ends of its connections are declared and some ranking of the ids grows
along every connection. That there is no start node is never reported
without a cycle or an undeclared end. Warnings do not count: a workflow is
valid if it has no errors, and so is every other that has the same name,
ids and ends of connections. -/
theorem validate_valid_iff (w : Workflow) :
    (w.validate.valid = true ↔
      Text.isAllBlank w.name = false ∧ w.nodes ≠ [] ∧ (w.nodes.map (·.id)).Nodup ∧
        (∀ c ∈ w.connections,
          (∃ node ∈ w.nodes, node.id = c.source) ∧ ∃ node ∈ w.nodes, node.id = c.target) ∧
        ∃ rank : String → Nat, ∀ c ∈ w.connections, rank c.source < rank c.target) ∧
    (Issue.noStart.finding .error ∈ w.validate.errors →
      (∃ ids, (Issue.cycle ids).finding .error ∈ w.validate.errors) ∨
        ∃ c which id, (Issue.undeclaredEnd c which id).finding .error ∈ w.validate.errors) ∧
    (w.validate.valid = true ↔ w.validate.errors = []) ∧
    ∀ v : Workflow, v.name = w.name → v.nodes.map (·.id) = w.nodes.map (·.id) →
      v.ends = w.ends → v.validate.valid = w.validate.valid := by
  refine ⟨isValid_iff_isAcyclic, ?_, ?_, ?_⟩
  · intro h
    obtain ⟨issue, hissue, hfinding⟩ := mem_errors.mp h
    rcases noStart_of_finding hfinding with rfl | rfl
    · refine (noStart_accompanied hissue).imp ?_ ?_
      · rintro ⟨ids, hcycle⟩
        exact ⟨ids, mem_errors.mpr ⟨_, hcycle, rfl⟩⟩
      · rintro ⟨c, which, id, hend⟩
        exact ⟨c, which, id, mem_errors.mpr ⟨_, hend, rfl⟩⟩
    · exact .inl ⟨[], mem_errors.mpr ⟨_, hissue, rfl⟩⟩
  · simp [validate, isValid]
  · intro v hname hids hends
    refine Bool.eq_iff_iff.mpr ?_
    have hnodes : v.nodes = [] ↔ w.nodes = [] := by
      rw [← List.map_eq_nil_iff (f := (·.id)), hids, List.map_eq_nil_iff]
    simp only [validate, isValid_iff_isAcyclic, isClosed_iff, isAcyclic_iff, ne_eq, hnodes, hname,
      hids, hends]

end Workflow

end Automation
