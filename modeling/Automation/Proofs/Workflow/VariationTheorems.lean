/-
Automation.Proofs.Workflow.VariationTheorems — workflows that differ in what
their nodes are to do.

A workflow varies another one if their nodes correspond one to one, in order and
with equal ids, and all else is equal (`Workflow.Varies`). The graphs of two such
workflows correspond node by node and have the same connections, so the ways
through them are the same (`Graph.Varies`); and as the checks look at the ids of
nodes only, the same errors are found (`Workflow.Varies.issues_eq`).
-/
import Automation.Workflow.Validation
import Mathlib.Data.List.Forall2

namespace Automation

variable {R : Node → Node → Prop}

/-- Corresponding nodes have one id. -/
def Node.KeepsId (R : Node → Node → Prop) : Prop :=
  ∀ node node', R node node' → node'.id = node.id

/-- Lists of nodes that correspond have the same ids. -/
theorem Node.KeepsId.ids_eq (hR : KeepsId R) {nodes nodes' : List Node}
    (h : List.Forall₂ R nodes nodes') : nodes'.map (·.id) = nodes.map (·.id) := by
  induction h with
  | nil => rfl
  | cons hnode _ ih => rw [List.map_cons, List.map_cons, hR _ _ hnode, ih]

/-! ## Graphs -/

/-- Graphs of the same connections, whose nodes correspond. -/
structure Graph.Varies (R : Node → Node → Prop) (g g' : Graph) : Prop where
  nodes : List.Forall₂ R g.nodes g'.nodes
  connections : g'.connections = g.connections

namespace Graph.Varies

variable {g g' : Graph} (h : g.Varies R g')

include h

theorem size_eq : g'.size = g.size :=
  h.nodes.length_eq.symm

theorem next_eq (routing : Routing) (id : String) : g'.next routing id = g.next routing id := by
  unfold next
  rw [h.connections]

section

variable (hR : Node.KeepsId R)

include hR

theorem starts_eq : g'.starts = g.starts := by
  unfold starts
  rw [hR.ids_eq h.nodes, h.connections]

/-- The nodes of one id correspond. -/
theorem node? (id : String) : Option.Rel R (g.node? id) (g'.node? id) := by
  unfold Graph.node?
  have hnodes := h.nodes
  generalize g.nodes = nodes, g'.nodes = nodes' at hnodes
  induction hnodes with
  | nil => exact .none
  | @cons node node' _ _ hnode _ ih =>
    rw [List.find?_cons, List.find?_cons, hR _ _ hnode]
    cases node.id == id with
    | true => exact .some hnode
    | false => exact ih

/-- The search for a cycle finds the same. -/
theorem cycle?_eq : g'.cycle? = g.cycle? := by
  have hsearch : ∀ fuel path, g'.search fuel path = g.search fuel path := by
    intro fuel
    induction fuel with
    | zero =>
      intro path
      funext cleared id
      unfold search
      rfl
    | succ fuel ih =>
      intro path
      funext cleared id
      unfold search
      simp only [ih, successors, h.next_eq]
  unfold cycle?
  rw [hsearch, h.size_eq, hR.ids_eq h.nodes]

end

end Graph.Varies

/-! ## Workflows -/

/-- The same workflow, but for its nodes, which correspond. -/
structure Workflow.Varies (R : Node → Node → Prop) (w w' : Workflow) : Prop where
  nodes : List.Forall₂ R w.nodes w'.nodes
  others : w' = { w with nodes := w'.nodes }

/-- The first nodes of each id correspond. -/
theorem Node.KeepsId.firstNodes (hR : KeepsId R) {nodes nodes' : List Node}
    (h : List.Forall₂ R nodes nodes') :
    ∀ seen, List.Forall₂ R (firstNodes seen nodes) (firstNodes seen nodes') := by
  induction h with
  | nil => exact fun _ => .nil
  | cons hnode _ ih =>
    intro seen
    unfold Automation.firstNodes
    rw [hR _ _ hnode]
    split
    · exact ih seen
    · exact .cons hnode (ih _)

namespace Workflow.Varies

variable {w w' : Workflow} (h : w.Varies R w')

include h

theorem connections_eq : w'.connections = w.connections := by
  rw [h.others]

theorem settings_eq : w'.settings = w.settings := by
  rw [h.others]

variable (hR : Node.KeepsId R)

include hR

theorem declares_eq : w'.declares = w.declares := by
  funext id
  have hany : ∀ nodes : List Node, (nodes.any fun node => node.id == id) =
      (nodes.map (·.id)).any (· == id) := by simp [Function.comp_def]
  unfold declares
  rw [hany, hany, hR.ids_eq h.nodes]

theorem graph : (Graph.ofWorkflow w).Varies R (Graph.ofWorkflow w') where
  nodes := hR.firstNodes h.nodes []
  connections := by
    unfold Graph.ofWorkflow
    simp only [h.connections_eq, h.declares_eq hR]

theorem startNodes_isEmpty_eq : w'.startNodes.isEmpty = w.startNodes.isEmpty := by
  have hstarts : ∀ w : Workflow, w.startNodes.isEmpty =
      ((w.nodes.map (·.id)).filter fun id =>
        !w.connections.any fun c => c.target == id).isEmpty := by
    intro w
    simp [startNodes, List.filter_map, Function.comp_def]
  rw [hstarts, hstarts, hR.ids_eq h.nodes, h.connections_eq]

/-- The same errors are found. -/
theorem issues_eq : w'.issues = w.issues := by
  have hname : w'.name = w.name := by rw [h.others]
  have hempty : w'.nodes.isEmpty = w.nodes.isEmpty := by
    simpa using congrArg List.isEmpty (hR.ids_eq h.nodes)
  have hends : w'.endIssues = w.endIssues := by
    funext c
    unfold endIssues
    rw [h.declares_eq hR]
  unfold issues
  rw [hname, hempty, hR.ids_eq h.nodes, h.connections_eq, hends, h.startNodes_isEmpty_eq hR,
    (h.graph hR).cycle?_eq hR]

end Workflow.Varies

end Automation
