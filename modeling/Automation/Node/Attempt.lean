/-
Automation.Node.Attempt — one attempt at a node, as it will go.

An executor looks at a node and its surroundings, calls a collaborator at
once if it needs one, and says how the attempt goes on: what is logged
now, how long it lasts, what is logged then, and how it ends. Nothing of
the end happens if the attempt is given up before.
-/
import Automation.Run.Condition
import Automation.Run.Log
import Automation.Services.Basic
import Automation.Workflow.Graph

namespace Automation

open Automation.Json (Value)
open Automation.Decode (DecodeError)

/-- What an executor sees of the run. -/
structure Surroundings where
  context : Context
  runId : String
  workflowId : String
  now : Nat

/-- What a node gives to the run. -/
structure Output where
  value : Value
  /-- Which of its connections are followed. -/
  routing : Routing := .all
  /-- The tasks it has created or updated. -/
  tasks : List TaskReference := []
  deriving Repr, Inhabited

/-- How an attempt will end. -/
structure Finish where
  /-- The milliseconds until then; there are none if nothing outside the run
  is waited for. -/
  lasts : Option Nat := none
  /-- What is logged then. -/
  closing : List Note := []
  ending : Ending Output
  deriving Repr, Inhabited

/-- An attempt that is under way. -/
structure Attempt where
  /-- What the beginning takes of the share of a turn. -/
  cost : Nat := 0
  /-- What is logged at once. -/
  opening : List Note := []
  /-- How it ends; it may never end. -/
  finish : Option Finish
  deriving Repr, Inhabited

/-- A way to execute the nodes of one type. -/
abbrev Executor := Node → Surroundings → Services → Attempt × Services

/-- Which node types can be executed, and how. -/
abbrev Executors := NodeType → Option Executor

namespace Executors

/-- The node types that can be executed, in order. -/
def types (executors : Executors) : List NodeType :=
  NodeType.all.filter fun type => (executors type).isSome

/-- Only the executors of the given types. -/
def only (types : List NodeType) (executors : Executors) : Executors :=
  fun type => if types.contains type then executors type else none

end Executors

/-! ## Failures -/

/-- Why an attempt fails. -/
inductive NodeError where
  | path (cause : UnknownRoot)
  | badConfig (type : NodeType) (node : String) (cause : DecodeError)
  | badDelay (node : String) (duration : Float)
  | badTask (node : String) (found : Value)
  | unknownTask (cause : UnknownTask)
  | notSent (cause : SendError)
  | scriptTooLate (limit : Nat)
  | scriptFailed (exitCode : Int) (error : Option String)

/-- A failure in words. -/
def NodeError.message : NodeError → String
  | .path cause => cause.message
  | .badConfig type node cause =>
    "Invalid " ++ type.name ++ " configuration on node '" ++ node ++ "': " ++ cause.message
  | .badDelay node duration =>
    "Delay on node '" ++ node ++ "' must be a non-negative number, got " ++
      Decimal.render .plain duration
  | .badTask node found =>
    "Task payload on node '" ++ node ++ "' must be an object, got " ++ found.render
  | .unknownTask cause => cause.message
  | .notSent cause => cause.message
  | .scriptTooLate limit => "Script timed out after " ++ toString limit ++ " ms"
  | .scriptFailed exitCode error =>
    "Script exited with code " ++ toString exitCode ++ ": " ++ error.getD "no error message"

namespace Attempt

/-- An attempt that fails at once. -/
def failed (e : NodeError) : Attempt where
  finish := some { ending := .failure e.message }

/-- An attempt that succeeds at once. -/
def succeeded (note : Note) (output : Output) : Attempt where
  opening := [note]
  finish := some { ending := .answer output }

/-- An attempt for which a book that is shared was opened. -/
def booked (attempt : Attempt) : Attempt :=
  { attempt with cost := attempt.cost + 1 }

/-- An attempt that ends as a call does. -/
def ofCall {α : Type} (opening : List Note) (call : Behaviour α)
    (finish : Ending α → List Note × Ending Output) : Attempt where
  opening
  finish :=
    match call with
    | .ends lasts ending =>
      let (closing, ending) := finish ending
      some { lasts, closing, ending }
    | .hangs => none

end Attempt

end Automation
