/-
Automation.Proofs.Run.DevelopmentTheorems — how the record of a run may go
on, and when it has dates.

`Run.Develops` compares two records of a run, an earlier and a later one:
the records of nodes keep their places, and only the last of them may have
changed, from running to ended; references to tasks and failed nodes are
only appended. It is transitive, so what each step keeps all steps keep. It
does not look at status and dates of the run.

`Run.Dated` says that a run and its nodes have a date of completion and a
duration exactly if they have ended. Whatever ends a run keeps this, and so
does the merge of a record that is handed in with the stored one
(`Store.merge_dated`).
-/
import Automation.Proofs.Run.HistoryTheorems
import Automation.Proofs.Run.RecordTheorems
import Automation.Proofs.Engine.AttemptTheorems

namespace Automation

/-! ## Nodes -/

/-- The record of a node that was running, and has ended. -/
structure NodeRun.EndsIn (r r' : NodeRun) : Prop where
  running : r.status = .running
  ended : r'.status ≠ .running
  nodeId : r'.nodeId = r.nodeId
  type : r'.type = r.type
  startedAt : r'.startedAt = r.startedAt
  input : r'.input = r.input

theorem NodeRun.close_endsIn {started : NodeRun} (h : started.status = .running)
    (settings : Settings) (node : Node) (now number : Nat) (log : Logger) (verdict : Verdict) :
    started.EndsIn (started.close settings node now number log verdict) where
  running := h
  ended := by
    rw [close_status]
    exact verdict.status_ne_running
  nodeId := close_nodeId ..
  type := by cases verdict <;> rfl
  startedAt := close_startedAt ..
  input := by cases verdict <;> rfl

/-- The record of a node has its dates exactly if the node has ended. -/
structure NodeRun.Dated (r : NodeRun) : Prop where
  completedAt : r.completedAt.isSome = true ↔ r.status ≠ .running
  duration : r.duration.isSome = true ↔ r.status ≠ .running

theorem NodeRun.start_dated (node : Node) (vars : Json.Fields) (now : Nat) :
    (start node vars now).Dated where
  completedAt := by simp [start]
  duration := by simp [start]

theorem NodeRun.close_dated (started : NodeRun) (settings : Settings) (node : Node)
    (now number : Nat) (log : Logger) (verdict : Verdict) :
    (started.close settings node now number log verdict).Dated := by
  have hstatus := close_status started settings node now number log verdict
  have hended := verdict.status_ne_running
  constructor
  · rw [hstatus]
    cases verdict <;> simp [close, conclude, complete, fail, cancel, finish, Verdict.status]
  · rw [hstatus]
    cases verdict <;> simp [close, conclude, complete, fail, cancel, finish, Verdict.status]

/-! ## Runs -/

namespace Race.Decision

variable (decision : Decision) (run : Run) (now : Nat)

@[simp] theorem apply_nodes : (decision.apply run now).nodes = run.nodes := by
  cases decision with
  | completed => rfl
  | failed error => rfl
  | cancelled => exact run.cancel_nodes now

@[simp] theorem apply_context : (decision.apply run now).context = run.context := by
  cases decision with
  | completed => rfl
  | failed error => rfl
  | cancelled => exact run.cancel_context now

@[simp] theorem apply_metadata : (decision.apply run now).metadata = run.metadata := by
  cases decision with
  | completed => rfl
  | failed error => rfl
  | cancelled => exact run.cancel_metadata now

end Race.Decision

namespace Run

/-- A run ends in a running record for a node. -/
structure EndsWith (r : Run) (node : Node) (last : NodeRun) : Prop where
  nodes : ∃ before, r.nodes = before ++ [last]
  nodeId : last.nodeId = node.id
  type : last.type = node.type
  status : last.status = .running

/-- A later record of a run beside an earlier one. -/
structure Develops (r r' : Run) : Prop where
  nodes : ∀ i record, r.nodes[i]? = some record → ∃ record', r'.nodes[i]? = some record' ∧
    (record' = record ∨ i + 1 = r.nodes.length ∧ record.EndsIn record')
  tasks : r.context.tasks <+: r'.context.tasks
  failedNodes : r.metadata.failedNodes <+: r'.metadata.failedNodes

namespace Develops

variable {r r' r'' : Run}

/-- More nodes, or none. -/
theorem of_appended (hnodes : r.nodes <+: r'.nodes) (htasks : r.context.tasks <+: r'.context.tasks)
    (hfailed : r.metadata.failedNodes <+: r'.metadata.failedNodes) : r.Develops r' where
  nodes i record h := by
    obtain ⟨more, hmore⟩ := hnodes
    obtain ⟨hi, -⟩ := List.getElem?_eq_some_iff.mp h
    exact ⟨record, by rw [← hmore, List.getElem?_append_left hi, h], Or.inl rfl⟩
  tasks := htasks
  failedNodes := hfailed

/-- The same nodes and the same context. -/
theorem of_same (hnodes : r'.nodes = r.nodes) (hcontext : r'.context = r.context)
    (hfailed : r.metadata.failedNodes <+: r'.metadata.failedNodes) : r.Develops r' :=
  of_appended (hnodes ▸ List.prefix_refl _) (hcontext ▸ List.prefix_refl _) hfailed

/-- The last node has ended. -/
theorem of_last {before : List NodeRun} {last last' : NodeRun} (hr : r.nodes = before ++ [last])
    (hr' : r'.nodes = before ++ [last']) (hends : last.EndsIn last')
    (htasks : r.context.tasks <+: r'.context.tasks)
    (hfailed : r.metadata.failedNodes <+: r'.metadata.failedNodes) : r.Develops r' where
  nodes i record h := by
    rw [hr] at h
    rw [hr, hr']
    obtain ⟨hi, -⟩ := List.getElem?_eq_some_iff.mp h
    rw [List.length_append, List.length_singleton] at hi
    by_cases hlast : i < before.length
    · rw [List.getElem?_append_left hlast] at h ⊢
      exact ⟨record, h, Or.inl rfl⟩
    · obtain rfl : i = before.length := by omega
      rw [List.getElem?_concat_length, Option.some.injEq] at h
      subst h
      exact ⟨last', List.getElem?_concat_length, Or.inr ⟨by simp, hends⟩⟩
  tasks := htasks
  failedNodes := hfailed

theorem rfl : r.Develops r :=
  of_same (Eq.refl _) (Eq.refl _) (List.prefix_refl _)

/-- Records of nodes are not taken back. -/
theorem length_le (h : r.Develops r') : r.nodes.length ≤ r'.nodes.length := by
  refine Nat.le_of_not_lt fun hlt => ?_
  obtain ⟨record', hrecord', -⟩ := h.nodes _ _ (List.getElem?_eq_getElem hlt)
  rw [List.getElem?_eq_none (Nat.le_refl _)] at hrecord'
  cases hrecord'

theorem trans (h : r.Develops r') (h' : r'.Develops r'') : r.Develops r'' where
  nodes i record hi := by
    obtain ⟨record', hi', hsame⟩ := h.nodes i record hi
    obtain ⟨record'', hi'', hsame'⟩ := h'.nodes i record' hi'
    refine ⟨record'', hi'', ?_⟩
    rcases hsame with rfl | ⟨hlast, hends⟩
    · rcases hsame' with rfl | ⟨hlast', hends'⟩
      · exact Or.inl (Eq.refl _)
      · -- the last place of the later record is one of the earlier record already
        obtain ⟨hlt, -⟩ := List.getElem?_eq_some_iff.mp hi
        have hle := h.length_le
        exact Or.inr ⟨by omega, hends'⟩
    · rcases hsame' with rfl | ⟨-, hends'⟩
      · exact Or.inr ⟨hlast, hends⟩
      · exact absurd hends'.running hends.ended
  tasks := h.tasks.trans h'.tasks
  failedNodes := h.failedNodes.trans h'.failedNodes

/-- Status and dates of the run do not matter. -/
theorem echoes (h : r.Develops r') (he : r''.Echoes r') : r.Develops r'' where
  nodes := he.nodes ▸ h.nodes
  tasks := he.context ▸ h.tasks
  failedNodes := he.metadata ▸ h.failedNodes

end Develops

/-- A run and its nodes have their dates exactly if they have ended. -/
structure Dated (r : Run) : Prop where
  completedAt : r.completedAt.isSome = true ↔ r.status.isTerminal = true
  duration : r.duration.isSome = true ↔ r.status.isTerminal = true
  nodes : ∀ record ∈ r.nodes, record.Dated

namespace Dated

variable {r : Run}

theorem start (w : Workflow) (id : String) (payload : Json.Value) (context : Context)
    (source : TriggerSource) (now : Nat) : (Run.start w id payload context source now).Dated where
  completedAt := by simp [Run.start, RunStatus.isTerminal]
  duration := by simp [Run.start, RunStatus.isTerminal]
  nodes := by simp [Run.start]

theorem finish (h : r.Dated) {status : RunStatus} (hend : status.isTerminal = true) (now : Nat) :
    (r.finish status now).Dated where
  completedAt := by simp [Run.finish, hend]
  duration := by simp [Run.finish, hend]
  nodes := h.nodes

theorem cancel (h : r.Dated) (now : Nat) : (r.cancel now).Dated := by
  cases hend : r.status.isTerminal with
  | true => rwa [cancel_of_terminal hend]
  | false =>
    rw [cancel_of_live hend]
    exact h.finish (Eq.refl _) now

/-- However a run ends, it has its dates. -/
theorem decide (h : r.Dated) (decision : Race.Decision) (now : Nat) :
    (decision.apply r now).Dated := by
  cases decision with
  | completed => exact h.finish (Eq.refl _) now
  | failed error =>
    have herror : Run.Dated { r with error := some error } := ⟨h.completedAt, h.duration, h.nodes⟩
    exact herror.finish (Eq.refl _) now
  | cancelled => exact h.cancel now

/-- The records of the nodes may be others that have their dates. -/
theorem withNodes (h : r.Dated) {r' : Run} (hstatus : r'.status = r.status)
    (hcompletedAt : r'.completedAt = r.completedAt) (hduration : r'.duration = r.duration)
    (hnodes : ∀ record ∈ r'.nodes, record.Dated) : r'.Dated where
  completedAt := by rw [hstatus, hcompletedAt]; exact h.completedAt
  duration := by rw [hstatus, hduration]; exact h.duration
  nodes := hnodes

end Dated

end Run

/-- What is stored after a record was handed in has its dates. -/
theorem Store.merge_dated {stored run : Run} (hstored : stored.Dated) (hrun : run.Dated) :
    (merge stored run).Dated := by
  by_cases h : stored.status = .cancelled
  · have hends : (merge stored run).EndsAs stored := merge_of_cancelled h
    constructor
    · rw [hends.completedAt, hends.status]
      exact hstored.completedAt
    · rw [hends.duration, hends.status]
      exact hstored.duration
    · rw [merge_nodes]
      exact hrun.nodes
  · rwa [merge_of_ne h]

end Automation
