/-
Automation.Proofs.Run.ViewTheorems — one record seen as another.

A `View` tells how a record of one run is to be seen as a record of another
one, that has another id, is on a clock that is ahead by some milliseconds,
and keeps only some of the log entries. Nothing else differs: the view
leaves statuses, durations, errors, outputs, variables and the order of
nodes and of log entries as they are.

The steps by which a record grows commute with every view: a node is
started, it is closed, a failure is noted, the run ends, it is handed in to
the store. Written to two logs, one of which keeps of all levels that the
other one keeps only those of the view, notes leave entries of which one
are the others as seen.
-/
import Automation.Proofs.Engine.AttemptTheorems

namespace Automation

open Automation.Time (Timestamp)

/-- How a record of one run is seen as a record of another. -/
structure View where
  /-- What the id of the run becomes. -/
  id : String → String := fun id => id
  /-- The milliseconds by which the clock is ahead. -/
  later : Nat := 0
  /-- Which log entries are seen. -/
  keeps : LogLevel → Bool := fun _ => true

/-! ## What is seen -/

/-- A point in time on a clock that is ahead; moments from outside stay. -/
def Time.Timestamp.later (ms : Nat) : Timestamp → Timestamp
  | .moment m => .moment m
  | .reading n => .reading (n + ms)

@[simp] theorem Time.Timestamp.later_reading (ms n : Nat) :
    (reading n).later ms = .reading (n + ms) := rfl

@[simp] theorem Time.Timestamp.later_elapsed (t : Timestamp) (ms n : Nat) :
    (t.later ms).elapsed (n + ms) = t.elapsed n := by
  cases t with
  | moment m => rfl
  | reading m =>
    simp only [later, elapsed]
    omega

@[simp] theorem Time.Timestamp.later_zero (t : Timestamp) : t.later 0 = t := by
  cases t <;> rfl

namespace View

/-- The entries of a log. -/
def entries (v : View) (log : List LogEntry) : List LogEntry :=
  (log.filter fun entry => v.keeps entry.level).map fun entry =>
    { entry with timestamp := entry.timestamp.later v.later }

/-- The record of a node. -/
def node (v : View) (r : NodeRun) : NodeRun :=
  { r with
    startedAt := r.startedAt.later v.later
    completedAt := r.completedAt.map (·.later v.later)
    logs := v.entries r.logs }

/-- The context of a run. -/
def context (v : View) (c : Context) : Context :=
  { c with timestamp := c.timestamp.later v.later }

/-- The record of a run. -/
def run (v : View) (r : Run) : Run :=
  { r with
    id := v.id r.id
    startedAt := r.startedAt.later v.later
    completedAt := r.completedAt.map (·.later v.later)
    context := v.context r.context
    nodes := r.nodes.map v.node }

variable (v : View)

/-! ## Records of nodes -/

@[simp] theorem entries_nil : v.entries [] = [] := rfl

@[simp] theorem entries_append (log log' : List LogEntry) :
    v.entries (log ++ log') = v.entries log ++ v.entries log' := by
  simp [entries]

theorem node_start (node : Node) (vars : Json.Fields) (now : Nat) :
    v.node (.start node vars now) = .start node vars (now + v.later) := rfl

/-- The verdict on a node is dated on either clock. -/
theorem node_conclude (r : NodeRun) (settings : Settings) (now : Nat) (verdict : Verdict) :
    v.node (r.conclude settings now verdict) =
      (v.node r).conclude settings (now + v.later) verdict := by
  cases verdict <;>
    simp [NodeRun.conclude, NodeRun.complete, NodeRun.fail, NodeRun.cancel, NodeRun.finish, node]

/-! ## Records of runs -/

section

variable (r : Run)

@[simp] theorem run_id : (v.run r).id = v.id r.id := rfl

@[simp] theorem run_status : (v.run r).status = r.status := rfl

@[simp] theorem run_error : (v.run r).error = r.error := rfl

@[simp] theorem run_workflowId : (v.run r).workflowId = r.workflowId := rfl

@[simp] theorem run_duration : (v.run r).duration = r.duration := rfl

@[simp] theorem run_completedAt :
    (v.run r).completedAt = r.completedAt.map (·.later v.later) := rfl

@[simp] theorem run_vars : (v.run r).context.vars = r.context.vars := rfl

theorem run_addNode (record : NodeRun) :
    v.run (r.addNode record) = (v.run r).addNode (v.node record) := by
  simp [run, Run.addNode]

theorem run_updateNode (record : NodeRun) :
    v.run (r.updateNode record) = (v.run r).updateNode (v.node record) := by
  simp [run, Run.updateNode, List.map_dropLast]

theorem run_absorb (node : Node) (verdict : Verdict) :
    v.run { r with context := r.context.absorb node verdict } =
      { v.run r with context := (v.run r).context.absorb node verdict } := by
  cases verdict <;> rfl

theorem run_finish (status : RunStatus) (now : Nat) :
    v.run (r.finish status now) = (v.run r).finish status (now + v.later) := by
  simp [run, Run.finish]

theorem run_fail (error : String) (now : Nat) :
    v.run (r.fail error now) = (v.run r).fail error (now + v.later) := by
  simp [run, Run.fail, Run.finish]

theorem run_cancel? (now : Nat) :
    (v.run r).cancel? (now + v.later) = (r.cancel? now).map v.run := by
  unfold Run.cancel?
  rw [run_status]
  split
  · rfl
  · rw [Option.map_some, run_finish]

theorem run_cancel (now : Nat) : v.run (r.cancel now) = (v.run r).cancel (now + v.later) := by
  unfold Run.cancel
  rw [run_cancel?]
  cases r.cancel? now <;> rfl

/-- A record is handed in beside a stored one. -/
theorem run_merge (stored : Run) :
    v.run (Store.merge stored r) = Store.merge (v.run stored) (v.run r) := by
  unfold Store.merge
  rw [run_status]
  split
  · rfl
  · rfl

end

end View

/-! ## Logs -/

/-- Of two logs, this one keeps what the other one keeps and the view sees,
and its entries are those of the other one as seen. -/
structure Logger.SeenBy (v : View) (log log' : Logger) : Prop where
  keeps : ∀ level, log.keeps level = (log'.keeps level && v.keeps level)
  entries : log.entries = v.entries log'.entries

namespace Logger.SeenBy

variable {v : View} {log log' : Logger}

theorem write (h : log.SeenBy v log') (now : Nat) (note : Note) :
    (log.write (now + v.later) note).SeenBy v (log'.write now note) := by
  have hkeeps : ∀ (log : Logger) now level, (log.write now note).keeps level = log.keeps level := by
    intro log now level
    unfold Logger.write
    split <;> rfl
  refine ⟨fun level => by rw [hkeeps, hkeeps, h.keeps], ?_⟩
  unfold Logger.write
  rw [h.keeps]
  cases log'.keeps note.level with
  | false => simpa using h.entries
  | true =>
    cases hv : v.keeps note.level with
    | false => simp [h.entries, View.entries, hv]
    | true => simp [h.entries, View.entries, hv]

theorem writeAll (now : Nat) (notes : List Note) :
    ∀ {log log' : Logger}, log.SeenBy v log' →
      (log.writeAll (now + v.later) notes).SeenBy v (log'.writeAll now notes) := by
  induction notes with
  | nil => exact id
  | cons note notes ih => exact fun h => ih (h.write now note)

end Logger.SeenBy

/-- What a node leaves behind is what is seen of what it left there. -/
theorem View.node_close {v : View} {log log' : Logger} (h : log.SeenBy v log') (started : NodeRun)
    (settings : Settings) (node : Node) (now number : Nat) (verdict : Verdict) :
    v.node (started.close settings node now number log' verdict) =
      (v.node started).close settings node (now + v.later) number log verdict := by
  unfold NodeRun.close
  rw [(h.write now (verdict.note settings node)).entries, ← v.node_conclude]
  rfl

end Automation
