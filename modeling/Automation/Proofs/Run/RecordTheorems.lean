/-
Automation.Proofs.Run.RecordTheorems — what the records of nodes say of the
variables.

The output of a completed node becomes a variable, and nothing else changes
the variables (`NodeRun.leave`). A run is `Recorded` if its variables are
what its records leave of those it began with, in their order, and if the
input of each record shows the data of its node beside the variables that
the records before it have left. One more record keeps this
(`Recorded.snoc`), and so does handing in, since the store changes neither
records nor context (`Run.Echoes`).
-/
import Automation.Proofs.Run.StoreTheorems
import Mathlib.Data.List.Basic

namespace Automation

open Automation.Json (Value Fields)

/-! ## Handing in -/

/-- What is handed back for a record: the record, or one that is cancelled
and says the same of the nodes and the context. -/
structure Run.Echoes (r' r : Run) : Prop where
  id : r'.id = r.id
  nodes : r'.nodes = r.nodes
  context : r'.context = r.context
  metadata : r'.metadata = r.metadata
  same : r'.status = .cancelled ∨ r' = r

theorem Run.Echoes.rfl {r : Run} : r.Echoes r :=
  ⟨Eq.refl _, Eq.refl _, Eq.refl _, Eq.refl _, Or.inr (Eq.refl _)⟩

theorem Store.merge_echoes (stored run : Run) : (merge stored run).Echoes run := by
  unfold merge
  split
  · exact ⟨rfl, rfl, rfl, rfl, Or.inl rfl⟩
  · exact .rfl

theorem Store.save_echoes (s : Store) (run : Run) : (s.save run).1.Echoes run := by
  cases he : s.entry? run.id with
  | none =>
    rw [save_of_none he]
    exact .rfl
  | some e =>
    rw [save_of_entry he]
    exact merge_echoes e.run run

/-! ## Variables -/

/-- What a record leaves of the variables: the output of a completed node is
added under its key. -/
def NodeRun.leave (vars : Fields) (r : NodeRun) : Fields :=
  match r.status, r.output with
  | .completed, some output => vars.insert (Context.outputKey r.nodeId) output
  | _, _ => vars

/-- A node that has not completed leaves the variables as they are. -/
theorem NodeRun.leave_of_ne {r : NodeRun} (h : r.status ≠ .completed) (vars : Fields) :
    r.leave vars = vars := by
  unfold leave
  split
  · next hs _ => exact absurd hs h
  · rfl

theorem NodeRun.leave_of_completed {r : NodeRun} {output : Value} (hs : r.status = .completed)
    (ho : r.output = some output) (vars : Fields) :
    r.leave vars = vars.insert (Context.outputKey r.nodeId) output := by
  unfold leave
  rw [hs, ho]

/-- What the input of a record shows. -/
def NodeRun.snapshot (node : Node) (vars : Fields) : Value :=
  .ofFields [("data", node.data), ("variables", .object vars)]

/-- The variables of a run and the inputs of its records are what the records
say. -/
structure Run.Recorded (run : Run) (w : Workflow) (seed : Fields) : Prop where
  vars : run.context.vars = run.nodes.foldl NodeRun.leave seed
  input : ∀ before r after, run.nodes = before ++ r :: after →
    ∃ node ∈ w.nodes, node.id = r.nodeId ∧
      r.input = NodeRun.snapshot node (before.foldl NodeRun.leave seed)
  /-- Completed nodes have an output, and no others. -/
  output : ∀ r ∈ run.nodes, r.status = .completed ↔ r.output.isSome = true

namespace Run.Recorded

variable {run run' : Run} {w : Workflow} {seed : Fields}

/-- A run without records has the variables it began with. -/
theorem start (h : run.nodes = []) : run.Recorded w run.context.vars where
  vars := by rw [h]; rfl
  input before r after hr := by
    rw [h] at hr
    cases before <;> cases hr
  output r hr := by
    rw [h] at hr
    cases hr

theorem congr (h : run.Recorded w seed) (hnodes : run'.nodes = run.nodes)
    (hcontext : run'.context = run.context) : run'.Recorded w seed where
  vars := by rw [hnodes, hcontext, h.vars]
  input := by rw [hnodes]; exact h.input
  output := by rw [hnodes]; exact h.output

theorem echoes (h : run.Recorded w seed) (he : run'.Echoes run) : run'.Recorded w seed :=
  h.congr he.nodes he.context

/-- One more record, which leaves what it says. -/
theorem snoc (h : run.Recorded w seed) {node : Node} {record : NodeRun} (hnode : node ∈ w.nodes)
    (hid : record.nodeId = node.id) (hnodes : run'.nodes = run.nodes ++ [record])
    (hinput : record.input = NodeRun.snapshot node run.context.vars)
    (houtput : record.status = .completed ↔ record.output.isSome = true)
    (hvars : run'.context.vars = record.leave run.context.vars) : run'.Recorded w seed where
  vars := by rw [hvars, hnodes, List.foldl_append, ← h.vars]; rfl
  input before r after hr := by
    rw [hnodes] at hr
    rcases List.eq_nil_or_concat after with rfl | ⟨after, last, rfl⟩
    · obtain ⟨rfl, hlast⟩ := List.append_inj' hr rfl
      obtain rfl := List.singleton_inj.mp hlast
      exact ⟨node, hnode, hid.symm, by rw [hinput, h.vars]⟩
    · rw [List.concat_eq_append, ← List.cons_append, ← List.append_assoc] at hr
      exact h.input before r after (List.append_inj' hr rfl).1
  output r hr := by
    rw [hnodes, List.mem_append, List.mem_singleton] at hr
    rcases hr with hr | rfl
    · exact h.output r hr
    · exact houtput

end Run.Recorded

/-! ## Failures -/

/-- The nodes that have failed, in the order of their records. -/
def NodeRun.failures (records : List NodeRun) : List String :=
  (records.filter (·.status == .failed)).map (·.nodeId)

theorem NodeRun.failures_append (records others : List NodeRun) :
    failures (records ++ others) = failures records ++ failures others := by
  simp [failures]

theorem NodeRun.failures_of_completed {records : List NodeRun}
    (h : ∀ r ∈ records, r.status = .completed) : failures records = [] := by
  simp only [failures, List.map_eq_nil_iff, List.filter_eq_nil_iff]
  intro r hr
  simp [h r hr]

end Automation
