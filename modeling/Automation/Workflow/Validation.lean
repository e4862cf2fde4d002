/-
Automation.Workflow.Validation — is a workflow fit to be run?

`Workflow.issues` lists the errors and `Workflow.warnings` the advice, each
in a fixed order. An `Issue` is a cause; its wording, its category and the
node or connection it is about are functions of it. A workflow is valid
exactly when it has no errors; warnings do not count.
-/
import Automation.Workflow.Cycle
import Automation.Workflow.Encode
import Automation.Workflow.Decode
import Automation.Text.Blank

namespace Automation

open Automation.Json (Value)

/-! ## Findings -/

/-- One end of a connection. -/
inductive End where
  | source | target
  deriving DecidableEq, Repr

/-- The name of an end. -/
def End.name : End → String
  | .source => "source"
  | .target => "target"

/-- What is wrong, or might be. -/
inductive Issue where
  | namelessWorkflow
  | noNodes
  | repeatedNode (id : String)
  | undeclaredEnd (connection : String) (which : End) (node : String)
  | noStart
  | cycle (ids : List String)
  | repeatedConnection (id : String)
  | disabled
  | isolatedNode (id : String)
  | untaggedBranch (connection node : String)
  | defaultMismatch (name : String) (type : VariableType)
  | pointlessRetry
  deriving DecidableEq, Repr

/-- How grave a finding is. -/
inductive Severity where
  | error | warning
  deriving DecidableEq, Repr, Inhabited

/-- The names of the severities. -/
def Severity.names : List (String × Severity) := [("error", .error), ("warning", .warning)]

/-- What a finding is about. -/
inductive IssueCategory where
  | structural | reference | logic | configuration
  deriving DecidableEq, Repr, Inhabited

/-- The names of the categories. -/
def IssueCategory.names : List (String × IssueCategory) := [
  ("structure", .structural), ("reference", .reference), ("logic", .logic),
  ("configuration", .configuration)]

namespace Issue

/-- A finding in words. -/
def message : Issue → String
  | .namelessWorkflow => "Workflow name is required"
  | .noNodes => "Workflow must contain at least one node"
  | .repeatedNode id => "Duplicate node id '" ++ id ++ "'"
  | .undeclaredEnd c which node =>
    "Connection '" ++ c ++ "' references non-existent " ++ which.name ++ " node '" ++ node ++ "'"
  | .noStart => "Workflow has no start node: every node has an incoming connection"
  | .cycle ids => "Workflow contains a cycle: " ++ " -> ".intercalate ids
  | .repeatedConnection id => "Duplicate connection id '" ++ id ++ "'"
  | .disabled => "Workflow is disabled; triggers will not start it"
  | .isolatedNode id => "Node '" ++ id ++ "' is not connected to any other node"
  | .untaggedBranch c node =>
    "Connection '" ++ c ++ "' leaves branch node '" ++ node ++
      "' without a source port and will never be followed"
  | .defaultMismatch v type =>
    "Default value of variable '" ++ v ++ "' does not match its declared type " ++ type.title
  | .pointlessRetry =>
    "Error handling is 'retry' but the retry policy allows fewer than 2 attempts"

/-- What a finding is about. -/
def category : Issue → IssueCategory
  | .namelessWorkflow | .noNodes | .repeatedNode _ | .repeatedConnection _ => .structural
  | .undeclaredEnd _ _ _ => .reference
  | .noStart | .cycle _ | .isolatedNode _ | .untaggedBranch _ _ => .logic
  | .disabled | .defaultMismatch _ _ | .pointlessRetry => .configuration

/-- The node a finding is about. -/
def node? : Issue → Option String
  | .repeatedNode id | .undeclaredEnd _ _ id | .isolatedNode id | .untaggedBranch _ id => some id
  | .cycle ids => ids.head?
  | _ => none

/-- The connection a finding is about. -/
def connection? : Issue → Option String
  | .undeclaredEnd id _ _ | .repeatedConnection id | .untaggedBranch id _ => some id
  | _ => none

end Issue

/-! ## The checks -/

/-- The ids that stand in the list for the second time or more. -/
def repeats (seen : List String) : List String → List String
  | [] => []
  | id :: rest =>
    if seen.contains id then id :: repeats seen rest else repeats (id :: seen) rest

namespace Workflow

/-- The errors of one connection. -/
def endIssues (w : Workflow) (c : Connection) : List Issue :=
  ([(End.source, c.source), (.target, c.target)].filter fun e => !w.declares e.2).map
    fun e => .undeclaredEnd c.id e.1 e.2

/-- Everything that keeps the workflow from being run. -/
def issues (w : Workflow) : List Issue :=
  (if Text.isAllBlank w.name then [.namelessWorkflow] else []) ++
  (if w.nodes.isEmpty then [.noNodes] else []) ++
  (repeats [] (w.nodes.map (·.id))).map .repeatedNode ++
  w.connections.flatMap w.endIssues ++
  (if !w.nodes.isEmpty && w.startNodes.isEmpty then [.noStart] else []) ++
  ((Graph.ofWorkflow w).cycle?.map Issue.cycle).toList

/-- Whether a connection begins or ends at a node. -/
def touches (w : Workflow) (id : String) : Bool :=
  w.connections.any fun c => c.source == id || c.target == id

/-- The connections of a branch that can never be followed. -/
def branchIssues (w : Workflow) (node : Node) : List Issue :=
  if node.type == .branch then
    (w.connections.filter fun c => c.source == node.id && c.sourcePort.isNone).map
      fun c => .untaggedBranch c.id node.id
  else []

/-- What is worth knowing and yet no error. -/
def warnings (w : Workflow) : List Issue :=
  (repeats [] (w.connections.map (·.id))).map .repeatedConnection ++
  (if w.enabled then [] else [.disabled]) ++
  (if 1 < w.nodes.length then
    (w.nodes.filter fun node => !w.touches node.id).map fun node => .isolatedNode node.id
   else []) ++
  w.nodes.flatMap w.branchIssues ++
  (w.vars.filter fun v => !v.type.accepts v.default).map
    (fun v => .defaultMismatch v.name v.type) ++
  (if w.settings.errorHandling == .retry && w.settings.retryPolicy.maxAttempts < 2 then
    [.pointlessRetry] else [])

/-- Whether the workflow may be run. -/
def isValid (w : Workflow) : Bool :=
  w.issues.isEmpty

/-- All errors in one line. -/
def summary (w : Workflow) : String :=
  "; ".intercalate (w.issues.map Issue.message)

end Workflow

/-! ## Reports -/

/-- One line of a report. -/
structure Finding where
  severity : Severity
  category : IssueCategory
  message : String
  node : Option String
  connection : Option String
  deriving Repr, Inhabited

/-- The result of a validation. -/
structure Report where
  valid : Bool
  errors : List Finding
  warnings : List Finding
  deriving Repr, Inhabited

/-- An issue as a line of a report. -/
def Issue.finding (severity : Severity) (issue : Issue) : Finding :=
  ⟨severity, issue.category, issue.message, issue.node?, issue.connection?⟩

/-- Validate a workflow. -/
def Workflow.validate (w : Workflow) : Report where
  valid := w.isValid
  errors := w.issues.map (Issue.finding .error)
  warnings := w.warnings.map (Issue.finding .warning)

/-- A line of a report; the node and the connection are written only if
there is one. -/
def Finding.toJson (f : Finding) : Value :=
  .ofFields ([
    ("severity", variantJson Severity.names f.severity),
    ("category", variantJson IssueCategory.names f.category),
    ("message", .string f.message)] ++
    f.node.toList.map (fun id => ("nodeId", .string id)) ++
    f.connection.toList.map (fun id => ("connectionId", .string id)))

/-- A report. -/
def Report.toJson (report : Report) : Value :=
  .ofFields [
    ("valid", .bool report.valid),
    ("errors", .array (report.errors.map Finding.toJson)),
    ("warnings", .array (report.warnings.map Finding.toJson))]

open Decode in
/-- A line of a report. -/
def Finding.decode : Decoder Finding :=
  Reader.decode "ValidationIssue" <|
    Finding.mk <$> required "severity" (variant Severity.names)
      <*> required "category" (variant IssueCategory.names)
      <*> required "message" text
      <*> perhaps "nodeId" text
      <*> perhaps "connectionId" text

open Decode in
/-- A report. -/
def Report.decode : Decoder Report :=
  Reader.decode "ValidationResult" <|
    Report.mk <$> required "valid" boolean
      <*> required "errors" (list Finding.decode)
      <*> required "warnings" (list Finding.decode)

end Automation
