/-
Automation.Run.Record — what is known of a run.

A `Run` is made when a workflow is set off and says everything that can
be seen of it: its status and dates, the payload, the context, one
`NodeRun` for every node that was started, in that order, and the error
that ended it. A status is terminal when nothing is to come after it; a
record has the date of its completion and its duration from the moment
it is given such a status (`Run.finish`, `NodeRun.finish`).
-/
import Automation.Run.Context
import Automation.Run.Log

namespace Automation

open Automation.Json (Value Fields)
open Automation.Time (Timestamp Face)

/-! ## Enumerations -/

/-- How far a run has come. -/
inductive RunStatus where
  | pending | running | completed | failed | cancelled
  /-- Held from outside; nothing here pauses a run. -/
  | paused
  deriving DecidableEq, Repr, Inhabited

/-- The names of the statuses. -/
def RunStatus.names : List (String × RunStatus) := [
  ("pending", .pending), ("running", .running), ("completed", .completed), ("failed", .failed),
  ("cancelled", .cancelled), ("paused", .paused)]

/-- Whether nothing is to come after this status. -/
def RunStatus.isTerminal : RunStatus → Bool
  | .completed | .failed | .cancelled => true
  | .pending | .running | .paused => false

/-- How far a node has come. -/
inductive NodeStatus where
  | running | completed | failed | cancelled
  deriving DecidableEq, Repr, Inhabited

/-- The names of the statuses. -/
def NodeStatus.names : List (String × NodeStatus) := [
  ("running", .running), ("completed", .completed), ("failed", .failed),
  ("cancelled", .cancelled)]

/-- What set a run off. -/
inductive TriggerSource where
  | manual | webhook | schedule | api
  deriving DecidableEq, Repr, Inhabited

/-- The names of the sources. -/
def TriggerSource.names : List (String × TriggerSource) := [
  ("manual", .manual), ("webhook", .webhook), ("schedule", .schedule), ("api", .api)]

/-! ## Records -/

/-- What else is known of a run. -/
structure RunMetadata where
  source : TriggerSource := .manual
  /-- The nodes that failed and did not end the run. -/
  failedNodes : List String := []
  deriving DecidableEq, Repr, Inhabited

/-- What is known of a node that was started. -/
structure NodeRun where
  nodeId : String
  type : NodeType
  status : NodeStatus
  startedAt : Timestamp
  completedAt : Option Timestamp
  /-- The milliseconds from start to completion. -/
  duration : Option Int
  /-- The data of the node, and the variables when it was started. -/
  input : Value
  output : Option Value
  error : Option String
  /-- How often the node was invoked. -/
  attempts : Nat
  logs : List LogEntry
  deriving Repr, Inhabited

/-- What is known of a run. -/
structure Run where
  id : String
  workflowId : String
  workflowVersion : Nat
  status : RunStatus
  startedAt : Timestamp
  completedAt : Option Timestamp
  /-- The milliseconds from start to completion. -/
  duration : Option Int
  payload : Value
  context : Context
  /-- The nodes that were started, in order. -/
  nodes : List NodeRun
  /-- Why the run ended early. -/
  error : Option String
  metadata : RunMetadata
  deriving Repr, Inhabited

/-! ## Nodes -/

namespace NodeRun

/-- A node is started. -/
def start (node : Node) (vars : Fields) (now : Nat) : NodeRun where
  nodeId := node.id
  type := node.type
  status := .running
  startedAt := .reading now
  completedAt := none
  duration := none
  input := .ofFields [("data", node.data), ("variables", .object vars)]
  output := none
  error := none
  attempts := 0
  logs := []

/-- A node comes to its end. -/
def finish (r : NodeRun) (status : NodeStatus) (now : Nat) : NodeRun :=
  { r with
    status
    completedAt := some (.reading now)
    duration := some (r.startedAt.elapsed now) }

/-- A node gives its output. -/
def complete (r : NodeRun) (output : Value) (now : Nat) : NodeRun :=
  { r with output := some output }.finish .completed now

/-- A node fails. -/
def fail (r : NodeRun) (error : String) (now : Nat) : NodeRun :=
  { r with error := some error }.finish .failed now

/-- A node is given up because its run is cancelled. -/
def cancel (r : NodeRun) (now : Nat) : NodeRun :=
  { r with error := some "Execution cancelled" }.finish .cancelled now

end NodeRun

/-! ## Runs -/

namespace Run

/-- A workflow is set off. -/
def start (w : Workflow) (id : String) (payload : Value) (context : Context)
    (source : TriggerSource) (now : Nat) : Run where
  id
  workflowId := w.id
  workflowVersion := w.version
  status := .running
  startedAt := .reading now
  completedAt := none
  duration := none
  payload
  context
  nodes := []
  error := none
  metadata := { source }

/-- A run comes to its end. -/
def finish (r : Run) (status : RunStatus) (now : Nat) : Run :=
  { r with
    status
    completedAt := some (.reading now)
    duration := some (r.startedAt.elapsed now) }

/-- A run fails. -/
def fail (r : Run) (error : String) (now : Nat) : Run :=
  { r with error := some error }.finish .failed now

/-- A run is cancelled, unless it has ended before. -/
def cancel? (r : Run) (now : Nat) : Option Run :=
  if r.status.isTerminal then none else some (r.finish .cancelled now)

/-- A run is cancelled, or stays as it has ended. -/
def cancel (r : Run) (now : Nat) : Run :=
  (r.cancel? now).getD r

/-- The record of the first node of an id. -/
def node? (r : Run) (id : String) : Option NodeRun :=
  r.nodes.find? fun node => node.nodeId == id

/-- One more node is started. -/
def addNode (r : Run) (node : NodeRun) : Run :=
  { r with nodes := r.nodes ++ [node] }

/-- The record of the node that was started last is brought up to date. -/
def updateNode (r : Run) (node : NodeRun) : Run :=
  { r with nodes := r.nodes.dropLast ++ [node] }

/-- Change the record of the first node of an id, if there is one. -/
def changeNode? (r : Run) (id : String) (change : NodeRun → NodeRun) : Option Run :=
  match r.nodes.span fun node => node.nodeId != id with
  | (before, node :: after) => some { r with nodes := before ++ change node :: after }
  | (_, []) => none

/-- A node has failed, and the run goes on. -/
def addFailure (r : Run) (id : String) : Run :=
  { r with metadata.failedNodes := r.metadata.failedNodes ++ [id] }

end Run

/-! ## JSON -/

/-- The JSON value of metadata. -/
def RunMetadata.toJson (m : RunMetadata) : Value :=
  .ofFields [
    ("triggerSource", variantJson TriggerSource.names m.source),
    ("failedNodes", .ofTexts m.failedNodes)]

/-- The JSON value of the record of a node. -/
def NodeRun.toJson (face : Face) (r : NodeRun) : Value :=
  .ofFields [
    ("nodeId", .string r.nodeId),
    ("nodeType", .string r.type.name),
    ("status", variantJson NodeStatus.names r.status),
    ("startedAt", r.startedAt.toJson face),
    ("completedAt", .ofOption (·.toJson face) r.completedAt),
    ("durationMs", .ofOption face.span r.duration),
    ("input", r.input),
    ("output", .ofOption id r.output),
    ("error", .ofOptionalText r.error),
    ("attempts", .ofNat r.attempts),
    ("logs", .array (r.logs.map (·.toJson face)))]

/-- The JSON value of the record of a run. -/
def Run.toJson (face : Face) (r : Run) : Value :=
  .ofFields [
    ("id", .string r.id),
    ("workflowId", .string r.workflowId),
    ("workflowVersion", .ofNat r.workflowVersion),
    ("status", variantJson RunStatus.names r.status),
    ("startedAt", r.startedAt.toJson face),
    ("completedAt", .ofOption (·.toJson face) r.completedAt),
    ("durationMs", .ofOption face.span r.duration),
    ("triggerData", r.payload),
    ("context", r.context.toJson face),
    ("nodeExecutions", .array (r.nodes.map (·.toJson face))),
    ("error", .ofOptionalText r.error),
    ("metadata", r.metadata.toJson)]

open Decode

/-- Read metadata. -/
def RunMetadata.decode : Decoder RunMetadata :=
  Reader.decode "ExecutionMetadata" <|
    RunMetadata.mk <$> required "triggerSource" (variant TriggerSource.names)
      <*> optional "failedNodes" (list text) []

/-- Read the record of a node. -/
def NodeRun.decode : Decoder NodeRun :=
  Reader.decode "WorkflowNodeExecution" <|
    NodeRun.mk <$> required "nodeId" text
      <*> required "nodeType" (variant NodeType.names)
      <*> required "status" (variant NodeStatus.names)
      <*> required "startedAt" decodeTimestamp
      <*> nullableField "completedAt" decodeTimestamp
      <*> nullableField "durationMs" (integer .i64)
      <*> required "input" any
      <*> nullableField "output" any
      <*> nullableField "error" text
      <*> required "attempts" (natural .u32)
      <*> required "logs" (list LogEntry.decode)

/-- Read the record of a run. -/
def Run.decode : Decoder Run :=
  Reader.decode "WorkflowExecution" <|
    Run.mk <$> required "id" text
      <*> required "workflowId" text
      <*> required "workflowVersion" (natural .u32)
      <*> required "status" (variant RunStatus.names)
      <*> required "startedAt" decodeTimestamp
      <*> nullableField "completedAt" decodeTimestamp
      <*> nullableField "durationMs" (integer .i64)
      <*> required "triggerData" any
      <*> required "context" Context.decode
      <*> required "nodeExecutions" (list NodeRun.decode)
      <*> nullableField "error" text
      <*> required "metadata" RunMetadata.decode

end Automation
