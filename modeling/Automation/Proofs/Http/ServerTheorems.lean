/-
Automation.Proofs.Http.ServerTheorems — a server and what happens to it.

A server is asked for things one after the other, and time passes in
between (`App.handleAll`). What a request asks for is found from its path
and method (`Request.operation?`); the operation is carried out, and its
reply may lose the body (`App.answer_eq`). A run that the reply leaves to
the background joins the jobs (`App.serve_eq`).
-/
import Automation.Http.Service

namespace Automation.Http

open Process

/-- What a request asks for, if its path has a route that knows its method. -/
def Request.operation? (r : Request) : Option Operation :=
  (Route.ofSegments? (Address.ofText r.target).segments).bind (·.operation? r.method)

/-- What happens to a server. -/
inductive Event where
  | request (r : Request)
  /-- Some milliseconds pass. -/
  | pass (ms : Nat)

namespace App

variable (app : App)

/-- Let something happen to the server. -/
def handle (s : Schedule) : Event → Schedule
  | .request r => (app.serve s r).2
  | .pass ms => s.advance ms

/-- Let one thing after the other happen. -/
def handleAll (events : List Event) (s : Schedule) : Schedule :=
  events.foldl app.handle s

/-- The reply to a request, with its body. -/
def respond (request : Request) : Answer :=
  match request.operation? with
  | some operation => app.perform request (Address.ofText request.target) operation
  | none =>
    match Route.ofSegments? (Address.ofText request.target).segments with
    | none => status 404
    | some _ => status 405

/-- The reply as it is sent. -/
def sent (request : Request) (reply : Reply) : Reply :=
  if sendsBody request.method reply.response then reply
  else { reply with response.body := .empty }

@[simp] theorem sent_continuation (request : Request) (reply : Reply) :
    (sent request reply).continuation = reply.continuation := by
  unfold sent
  split <;> rfl

@[simp] theorem sent_status (request : Request) (reply : Reply) :
    (sent request reply).response.status = reply.response.status := by
  unfold sent
  split <;> rfl

theorem sent_response (request : Request) (reply : Reply) :
    (sent request reply).response = (sent request { response := reply.response }).response := by
  unfold sent
  split <;> rfl

/-- A request is responded to, and then the reply is sent. -/
theorem answer_eq (request : Request) :
    app.answer request = app.respond request >>= fun reply => done (sent request reply) := by
  have hsent : ∀ reply : Reply, (done (sent request reply) : Answer) =
      if sendsBody request.method reply.response then done reply
      else done { reply with response.body := .empty } := fun reply => by
    unfold sent
    split <;> rfl
  rw [funext hsent]
  unfold answer respond Request.operation?
  dsimp only
  cases Route.ofSegments? (Address.ofText request.target).segments with
  | none => rfl
  | some route =>
    cases hoperation : route.operation? request.method with
    | none => simp only [Option.bind_some, hoperation]; rfl
    | some operation => simp only [Option.bind_some, hoperation]; rfl

/-- How often a request comes to a wait or to the lock at most. -/
def stops (s : Schedule) : Nat :=
  s.world.registry.workflows.foldl (fun all w => all + Engine.stops w) 2

/-- Leave the run of a reply to the background, if there is one. -/
def leave (s : Schedule) : Option Continuation → Schedule
  | some c => s.background app.engine c.workflow c.run c.token
  | none => s

/-- A request is answered, and its run is left to the background. -/
theorem serve_eq (s : Schedule) (request : Request) :
    app.serve s request =
      ((s.serve (stops s) (app.answer request)).1.map (·.response),
        app.leave (s.serve (stops s) (app.answer request)).2
          ((s.serve (stops s) (app.answer request)).1.bind (·.continuation))) := by
  unfold serve stops
  dsimp only
  generalize s.serve _ (app.answer request) = served
  obtain ⟨reply?, t⟩ := served
  cases reply? with
  | none => rfl
  | some reply => rfl

end App

end Automation.Http
