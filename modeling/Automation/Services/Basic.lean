/-
Automation.Services.Basic — the collaborators of a run, all together.

Tasks and notifications are kept here. The rules, the web and the script
sandbox are outside: what they do upon each call is given beforehand, in
the order of the calls. After that requests go out to the web, if that is
wanted, from a machine without a network. Every call is entered in a
journal when it is made, whatever becomes of it.
-/
import Automation.Http.Wire
import Automation.Services.Behaviour
import Automation.Services.Notification
import Automation.Services.Request
import Automation.Services.Tasks

namespace Automation

open Automation.Json (Value Fields)

/-- A call of a collaborator. -/
inductive Call where
  | rules (actionType : String) (parameters : Value)
  | web (request : WebRequest)
  | scripts (request : ScriptRequest)
  | notify (notification : Notification)
  | createTask (fields : Fields)
  | updateTask (id : String) (updates : Fields)
  deriving Repr, Inhabited

/-- The collaborators. -/
structure Services where
  tasks : TaskBook := {}
  outbox : Outbox := {}
  /-- What the rules do, by the type of the action. -/
  rules : List (String × List (Behaviour Value)) := []
  web : List (Behaviour WebResponse) := []
  /-- Requests go out to the web when nothing is given for them. -/
  goesOut : Bool := false
  scripts : List (Behaviour ScriptOutcome) := []
  /-- The calls that were made, in order. -/
  calls : List Call := []
  deriving Repr, Inhabited

namespace Services

/-- Enter a call in the journal. -/
def enter (s : Services) (call : Call) : Services :=
  { s with calls := s.calls ++ [call] }

/-! ## Kept here -/

/-- Create a task. -/
def createTask (s : Services) (fields : Fields) (now : Nat) : TaskRecord × Services :=
  let (task, tasks) := s.tasks.create fields now
  (task, { s.enter (.createTask fields) with tasks })

/-- Update a task. -/
def updateTask (s : Services) (id : String) (updates : Fields) (now : Nat) :
    Except UnknownTask TaskRecord × Services :=
  let entered := s.enter (.updateTask id updates)
  match s.tasks.update id updates now with
  | .ok (task, tasks) => (.ok task, { entered with tasks })
  | .error e => (.error e, entered)

/-- Send a notification. -/
def notify (s : Services) (n : Notification) (now : Nat) :
    Except SendError Receipt × Services :=
  let entered := s.enter (.notify n)
  match s.outbox.send n now with
  | .ok (receipt, outbox) => (.ok receipt, { entered with outbox })
  | .error e => (.error e, entered)

/-! ## Outside -/

/-- The rules behave as they are told for the type of the action, and then
answer `null`. -/
def ruleFor (actionType : String) :
    List (String × List (Behaviour Value)) →
      Behaviour Value × List (String × List (Behaviour Value))
  | [] => (.atOnce (.answer .null), [])
  | (type, list) :: rest =>
    if type == actionType then
      let (b, list) := Behaviour.next (.atOnce (.answer .null)) list
      (b, (type, list) :: rest)
    else
      let (b, rest) := ruleFor actionType rest
      (b, (type, list) :: rest)

/-- Hand an action to the rules. -/
def dispatch (s : Services) (actionType : String) (parameters : Value) :
    Behaviour Value × Services :=
  let (b, rules) := ruleFor actionType s.rules
  (b, { s.enter (.rules actionType parameters) with rules })

/-- Send a request to the web. -/
def fetch (s : Services) (request : WebRequest) : Behaviour WebResponse × Services :=
  let fallback :=
    if s.goesOut then Http.unreached request else .atOnce (.failure "no scripted response")
  let (b, web) := Behaviour.next fallback s.web
  (b, { s.enter (.web request) with web })

/-- Have a script run. -/
def runScript (s : Services) (request : ScriptRequest) : Behaviour ScriptOutcome × Services :=
  let refusal := .failure (ScriptRequest.unsupported request.language)
  let (b, scripts) := Behaviour.next (.atOnce refusal) s.scripts
  (b, { s.enter (.scripts request) with scripts })

end Services

end Automation
