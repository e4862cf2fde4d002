/-
Automation.Workflow.Basic — workflows: nodes, connections, variables and
run settings.

A workflow is authored outside and only validated and run here. Its nodes
are wired by connections from node to node; a connection may leave its
source by a named port. Each enumeration comes with the list of its names
on the wire, which is what reading and writing go by.
-/
import Automation.Time.Clock

namespace Automation

open Automation.Json
open Automation.Time (Timestamp)

/-! ## Enumerations -/

/-- The name of a variant in a list of names. -/
def nameIn {α : Type} [BEq α] (names : List (String × α)) (a : α) : String :=
  ((names.find? fun entry => entry.2 == a).map (·.1)).getD ""

/-- The business a workflow belongs to. -/
inductive Category where
  | taskAutomation | approval | notification | integration | timeTracking | custom
  deriving DecidableEq, Repr, Inhabited

/-- The names of the categories. -/
def Category.names : List (String × Category) := [
  ("task_automation", .taskAutomation), ("approval", .approval),
  ("notification", .notification), ("integration", .integration),
  ("time_tracking", .timeTracking), ("custom", .custom)]

/-- What a node does. -/
inductive NodeType where
  | trigger | condition | branch | action | delay | notification
  | taskCreate | taskUpdate | webhook | script
  deriving DecidableEq, Repr, Inhabited

/-- The names of the node types. -/
def NodeType.names : List (String × NodeType) := [
  ("trigger", .trigger), ("condition", .condition), ("branch", .branch), ("action", .action),
  ("delay", .delay), ("notification", .notification), ("task_create", .taskCreate),
  ("task_update", .taskUpdate), ("webhook", .webhook), ("script", .script)]

/-- Every node type, in order. -/
def NodeType.all : List NodeType :=
  NodeType.names.map (·.2)

/-- The name of a node type. -/
def NodeType.name (t : NodeType) : String :=
  nameIn NodeType.names t

/-- The declared type of a variable. -/
inductive VariableType where
  | string | number | boolean | object | array
  deriving DecidableEq, Repr, Inhabited

/-- The names of the variable types. -/
def VariableType.names : List (String × VariableType) := [
  ("string", .string), ("number", .number), ("boolean", .boolean), ("object", .object),
  ("array", .array)]

/-- A variable type in a sentence. -/
def VariableType.title : VariableType → String
  | .string => "String"
  | .number => "Number"
  | .boolean => "Boolean"
  | .object => "Object"
  | .array => "Array"

/-- Whether a value fits the declared type; `null` fits every type. -/
def VariableType.accepts : VariableType → Value → Bool
  | _, .null => true
  | .string, .string _ => true
  | .number, .number _ => true
  | .boolean, .bool _ => true
  | .object, .object _ => true
  | .array, .array _ => true
  | _, _ => false

/-- Where a variable is meant to be seen. -/
inductive VariableScope where
  | globally | locally | session
  deriving DecidableEq, Repr, Inhabited

/-- The names of the scopes. -/
def VariableScope.names : List (String × VariableScope) := [
  ("global", .globally), ("local", .locally), ("session", .session)]

/-- What a failed node does to its run. -/
inductive ErrorHandling where
  /-- It ends the run. -/
  | stop
  /-- Nothing below it is reached from it; the run goes on. -/
  | goOn
  /-- It is invoked again as the retry policy allows, and then ends the
  run. -/
  | retry
  deriving DecidableEq, Repr, Inhabited

/-- The names of the ways to handle errors. -/
def ErrorHandling.names : List (String × ErrorHandling) := [
  ("stop", .stop), ("continue", .goOn), ("retry", .retry)]

/-- The weight of a log entry. -/
inductive LogLevel where
  | debug | info | warn | error
  deriving DecidableEq, Repr, Inhabited

/-- The names of the levels. -/
def LogLevel.names : List (String × LogLevel) := [
  ("debug", .debug), ("info", .info), ("warn", .warn), ("error", .error)]

/-- The levels in ascending order. -/
def LogLevel.rank : LogLevel → Nat
  | .debug => 0
  | .info => 1
  | .warn => 2
  | .error => 3

/-! ## Nodes and connections -/

/-- A port of a node, for the editor. -/
structure Port where
  id : String
  name : Option String
  dataType : Option String
  deriving Repr, Inhabited

/-- A node. -/
structure Node where
  id : String
  type : NodeType
  name : Option String
  /-- What the node is to do, in the form that its type wants. -/
  data : Value
  inputs : List Port
  outputs : List Port
  deriving Repr, Inhabited

/-- The name of a node for people. -/
def Node.label (node : Node) : String :=
  node.name.getD node.id

/-- A connection from one node to another. -/
structure Connection where
  id : String
  source : String
  target : String
  /-- The port of the source that it leaves by; a connection without one
  is untagged. -/
  sourcePort : Option String
  targetPort : Option String
  deriving Repr, Inhabited

/-! ## Variables and settings -/

/-- A declared variable. -/
structure Variable where
  name : String
  type : VariableType
  default : Value
  scope : VariableScope
  description : Option String
  deriving Repr, Inhabited

/-- How often and how fast a failed node is invoked again. -/
structure RetryPolicy where
  /-- All attempts, the first one included. -/
  maxAttempts : Nat := 3
  /-- The milliseconds before the second attempt. -/
  backoff : Nat := 1000
  /-- How much longer each wait is than the one before. -/
  multiplier : Float := 2.0
  deriving Repr, Inhabited

/-- Which log entries are kept. -/
structure Logging where
  enabled : Bool := true
  level : LogLevel := .info
  deriving DecidableEq, Repr, Inhabited

/-- How a workflow is run. -/
structure Settings where
  /-- The milliseconds a run may take. -/
  timeout : Option Nat := none
  retryPolicy : RetryPolicy := {}
  errorHandling : ErrorHandling := .stop
  logging : Logging := {}
  deriving Repr, Inhabited

/-! ## Workflows -/

/-- A workflow. -/
structure Workflow where
  id : String
  name : String
  description : Option String
  version : Nat
  category : Category
  nodes : List Node
  connections : List Connection
  vars : List Variable
  settings : Settings
  metadata : Fields
  enabled : Bool
  createdBy : Option String
  createdAt : Timestamp
  updatedAt : Timestamp
  deriving Repr, Inhabited

namespace Workflow

/-- The first node of an id. -/
def node? (w : Workflow) (id : String) : Option Node :=
  w.nodes.find? fun node => node.id == id

/-- Whether a node of this id is declared. -/
def declares (w : Workflow) (id : String) : Bool :=
  w.nodes.any fun node => node.id == id

end Workflow

end Automation
