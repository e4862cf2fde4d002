/-
Automation.Run.Context — what the nodes of a run share.

A context holds the variables of the run, the tasks its nodes have
created or updated, the acting user and the environment. It is seeded
from the defaults of the workflow, the payload that set the run off and
the overrides of the caller, the later source winning; afterwards it only
grows by the outputs of nodes and by references to tasks.
-/
import Automation.Workflow.Encode
import Automation.Workflow.Decode

namespace Automation

open Automation.Json (Value Fields)
open Automation.Time (Timestamp Face)

/-! ## Tasks -/

/-- What a node did to a task. -/
inductive TaskAction where
  | created | updated
  deriving DecidableEq, Repr, Inhabited

/-- The names of the actions. -/
def TaskAction.names : List (String × TaskAction) := [("created", .created), ("updated", .updated)]

/-- A task that a node has created or updated. -/
structure TaskReference where
  taskId : String
  action : TaskAction
  status : String
  /-- The task as it was then. -/
  snapshot : Value
  nodeId : String
  deriving Repr, Inhabited

/-- The JSON value of a reference. -/
def TaskReference.toJson (r : TaskReference) : Value :=
  .ofFields [
    ("taskId", .string r.taskId),
    ("action", variantJson TaskAction.names r.action),
    ("status", .string r.status),
    ("snapshot", r.snapshot),
    ("nodeId", .string r.nodeId)]

open Decode in
/-- Read a reference. -/
def TaskReference.decode : Decoder TaskReference :=
  Reader.decode "TaskReference" <|
    TaskReference.mk <$> required "taskId" text
      <*> required "action" (variant TaskAction.names)
      <*> required "status" text
      <*> required "snapshot" any
      <*> required "nodeId" text

/-! ## Overrides -/

/-- What a caller sets for one run. -/
structure Overrides where
  vars : Fields := []
  userId : Option String := none
  environment : Option String := none
  deriving Repr, Inhabited

/-- The JSON fields of overrides. -/
def Overrides.toFields (o : Overrides) : List (String × Value) := [
  ("variables", .object o.vars),
  ("userId", .ofOptionalText o.userId),
  ("environment", .ofOptionalText o.environment)]

/-- The JSON value of overrides. -/
def Overrides.toJson (o : Overrides) : Value :=
  .ofFields o.toFields

open Decode in
/-- Read overrides. -/
def Overrides.decode : Decoder Overrides :=
  Reader.decode "ContextOverrides" <|
    Overrides.mk <$> optional "variables" fields []
      <*> perhaps "userId" text
      <*> perhaps "environment" text

/-! ## Contexts -/

/-- What the nodes of a run share. -/
structure Context where
  vars : Fields
  tasks : List TaskReference
  userId : Option String
  timestamp : Timestamp
  environment : String
  deriving Repr, Inhabited

namespace Context

/-- The defaults of declared variables; of two of one name the later one
counts. -/
def defaults (vars : List Variable) : Fields :=
  Fields.ofList (vars.map fun v => (v.name, v.default))

/-- A payload as variables: its fields, or itself under the name
`trigger`, unless there is none. -/
def payloadFields : Value → Fields
  | .object fields => fields
  | .null => []
  | v => [("trigger", v)]

/-- The context of a new run. -/
def seed (w : Workflow) (payload : Value) (overrides : Overrides) (environment : String)
    (now : Timestamp) : Context where
  vars := ((defaults w.vars).merge (payloadFields payload)).merge overrides.vars
  tasks := []
  userId := overrides.userId
  timestamp := now
  environment := overrides.environment.getD environment

/-- The variable that holds the output of a node. -/
def outputKey (nodeId : String) : String :=
  "node_" ++ nodeId ++ "_output"

/-- Keep the output of a node. -/
def recordOutput (c : Context) (nodeId : String) (output : Value) : Context :=
  { c with vars := c.vars.insert (outputKey nodeId) output }

/-- Keep references to tasks. -/
def recordTasks (c : Context) (references : List TaskReference) : Context :=
  { c with tasks := c.tasks ++ references }

/-- The JSON value of a context. -/
def toJson (face : Face) (c : Context) : Value :=
  .ofFields [
    ("variables", .object c.vars),
    ("tasks", .array (c.tasks.map TaskReference.toJson)),
    ("userId", .ofOptionalText c.userId),
    ("timestamp", c.timestamp.toJson face),
    ("environment", .string c.environment)]

open Decode in
/-- Read a context. -/
def decode : Decoder Context :=
  Reader.decode "ExecutionContext" <|
    Context.mk <$> required "variables" fields
      <*> required "tasks" (list TaskReference.decode)
      <*> nullableField "userId" text
      <*> required "timestamp" decodeTimestamp
      <*> required "environment" text

end Context

end Automation
