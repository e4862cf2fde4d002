/-
Automation.Http.Route — which request asks for what.

A route is a form of path, and a path has at most one route: fixed words
win over names. A name at the end of a path is not empty; one with a word
behind it may be. What a request asks for is an `Operation`, found from
the route and the method. `HEAD` asks for what `GET` asks for.
-/
import Automation.Http.Address

namespace Automation.Http

/-- A form of path; names stand as they are written. -/
inductive Route where
  | health
  | workflows
  | validation
  | workflow (name : String)
  | execution (workflow : String)
  | runs
  | run (name : String)
  | cancellation (run : String)
  | hook (workflow : String)
  deriving DecidableEq, Repr

/-- The route of a path. -/
def Route.ofSegments? : List String → Option Route
  | ["healthz"] => some .health
  | ["api", "workflows"] => some .workflows
  | ["api", "workflows", "validate"] => some .validation
  | ["api", "workflows", name] => if name.isEmpty then none else some (.workflow name)
  | ["api", "workflows", name, "execute"] => some (.execution name)
  | ["api", "executions"] => some .runs
  | ["api", "executions", name] => if name.isEmpty then none else some (.run name)
  | ["api", "executions", name, "cancel"] => some (.cancellation name)
  | ["webhook", name] => if name.isEmpty then none else some (.hook name)
  | _ => none

/-- What a request asks for; names stand as they are written. -/
inductive Operation where
  | health
  | createWorkflow
  | listWorkflows
  | validateWorkflow
  | getWorkflow (name : String)
  | updateWorkflow (name : String)
  | deleteWorkflow (name : String)
  | executeWorkflow (name : String)
  | listRuns
  | getRun (name : String)
  | cancelRun (name : String)
  | runHook (name : String)
  deriving DecidableEq, Repr

/-- What a method means on a route. -/
def Route.operation? (route : Route) (method : String) : Option Operation :=
  let gets := method == "GET" || method == "HEAD"
  match route with
  | .health => if gets then some .health else none
  | .workflows =>
    if gets then some .listWorkflows
    else if method == "POST" then some .createWorkflow else none
  | .validation => if method == "POST" then some .validateWorkflow else none
  | .workflow name =>
    if gets then some (.getWorkflow name)
    else if method == "PUT" then some (.updateWorkflow name)
    else if method == "DELETE" then some (.deleteWorkflow name) else none
  | .execution name => if method == "POST" then some (.executeWorkflow name) else none
  | .runs => if gets then some .listRuns else none
  | .run name => if gets then some (.getRun name) else none
  | .cancellation name => if method == "POST" then some (.cancelRun name) else none
  | .hook name => some (.runHook name)

end Automation.Http
