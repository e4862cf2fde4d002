/-
Automation.Http.Service — answering requests.

A request is answered by a process on the shared state. Looking a workflow
up and exchanging the content of the registry are steps of their own, so
other requests may come between them. A request for a run in the
background is answered at once, and the run is handed over in the reply.

A request is refused for the first of these reasons: its path has no
route, the route does not know the method, the name in the path cannot be
read, the body cannot be read; then it is the state that decides.
-/
import Automation.Engine.Schedule
import Automation.Http.Message
import Automation.Http.Route
import Automation.Json.Reader

namespace Automation.Http

open Automation.Json (Value Document)
open Automation.Decode
open Automation.Time (Face)

/-! ## Reading requests -/

/-- Why a request cannot be read. -/
inductive Rejection where
  | badName (parameter : String)
  | badQuery
  | notJson
  | tooLong
  | brokenJson
  | wrongJson
  /-- A body that is read without regard to its content type. -/
  | badBody
  deriving DecidableEq, Repr

/-- The response to a request that cannot be read. -/
def Rejection.response : Rejection → Response
  | .badName parameter =>
    ⟨400, .text ("Invalid URL: Invalid UTF-8 in `" ++ parameter ++ "`")⟩
  | .badQuery => ⟨400, .text "Failed to deserialize query string"⟩
  | .notJson => ⟨415, .text "Expected request with `Content-Type: application/json`"⟩
  | .tooLong => ⟨413, .text "Failed to buffer the request body"⟩
  | .brokenJson => ⟨400, .text "Failed to parse the request body as JSON"⟩
  | .wrongJson => ⟨422, .text "Failed to deserialize the JSON body into the target type"⟩
  | .badBody => ⟨400, .empty⟩

/-- The name in a path. -/
def readName (parameter name : String) : Except Rejection String :=
  match segmentName? name with
  | some text => .ok text
  | none => .error (.badName parameter)

/-- A text that is one JSON value of the wanted form. -/
def readJson {α : Type} (decode : Decoder α) (text : String) : Except Rejection α :=
  let document := Document.ofText text
  match decode document.root with
  | .ok a => if document.ended then .ok a else .error .brokenJson
  | .error e => .error (if e.breaks then .brokenJson else .wrongJson)

/-- The most bytes of a body that are read. The web framework sets this limit to
applications that set none. -/
def longestBody : Nat := 2 * 1024 * 1024

/-- The text of the body, unless it is too long. -/
def Request.content (r : Request) : Except Rejection String :=
  if r.body.utf8ByteSize ≤ longestBody then .ok r.body else .error .tooLong

/-- The body of a request that must be JSON by its content type. -/
def Request.json {α : Type} (r : Request) (decode : Decoder α) : Except Rejection α :=
  if r.contentType.any isJsonType then r.content >>= readJson decode else .error .notJson

/-- The body of a request that may be left out. -/
def Request.optionalJson {α : Type} (r : Request) (decode : Decoder α) (absent : α) :
    Except Rejection α := do
  let text ← r.content
  if Text.isAllBlank text then return absent
  else (readJson decode text).mapError fun _ => .badBody

/-- The workflow in the body of a request. -/
def decodeWorkflowRequest (now : Nat) : Decoder Workflow :=
  Reader.decode "WorkflowRequest" (required "workflow" (Workflow.decode (.reading now)))

/-- How a workflow is to be run. -/
structure ExecuteRequest where
  payload : Value := .null
  overrides : Overrides := {}
  background : Bool := false
  deriving Repr, Inhabited

/-- Read how a workflow is to be run. -/
def ExecuteRequest.decode : Decoder ExecuteRequest :=
  Reader.decode "ExecuteRequest" <|
    (fun payload vars userId environment background =>
        ⟨payload, ⟨vars, userId, environment⟩, background⟩)
      <$> optional "triggerData" any .null
      <*> optional "variables" fields []
      <*> perhaps "userId" text
      <*> perhaps "environment" text
      <*> optional "background" boolean false

/-- The workflow that a list of runs is asked for, if one is named. -/
def Address.workflowId (a : Address) : Except Rejection (Option String) :=
  match a.queryFields.filter (·.1 == "workflowId") with
  | [] => .ok none
  | [field] => .ok (some field.2)
  | _ => .error .badQuery

/-! ## Replies -/

/-- A run that goes on behind a response. -/
structure Continuation where
  workflow : Workflow
  run : Run
  token : Nat

/-- A response, and the run that it leaves to the background. -/
structure Reply where
  response : Response
  continuation : Option Continuation := none

/-- The application. -/
structure App where
  engine : Engine
  face : Face

namespace App

/-- Answers of requests. -/
abbrev Answer := Process World Reply

/-- A reply without a body. -/
def status (code : Nat) : Answer :=
  pure { response := { status := code } }

/-- A reply of a JSON value. -/
def json (code : Nat) (value : Value) : Answer :=
  pure { response := ⟨code, .json value⟩ }

/-- Go on with what was read, or say why it cannot be read. -/
def reading {α : Type} (result : Except Rejection α) (next : α → Answer) : Answer :=
  match result with
  | .ok a => next a
  | .error e => pure { response := e.response }

/-! ## Workflows -/

/-- That a workflow was taken in. -/
def acknowledgement (w : Workflow) (report : Report) (done : String) : Value :=
  .ofFields [
    ("id", .string w.id),
    ("message", .string ("Workflow '" ++ w.name ++ "' " ++ done ++ " successfully")),
    ("warnings", .ofNat report.warnings.length)]

/-- Add a workflow. -/
def createWorkflow (w : Workflow) : Answer := do
  if Text.isAllBlank w.id then status 400
  else
    let outcome ← Process.step fun world =>
      match world.registry.create (.reading world.now) w with
      | .ok (report, registry) => (Except.ok report, { world with registry })
      | .error e => (.error e, world)
    match outcome with
    | .error _ => status 422
    | .ok none => status 409
    | .ok (some report) => json 201 (acknowledgement w report "created")

/-- A workflow in a list. -/
def summary (face : Face) (w : Workflow) : Value :=
  .ofFields [
    ("id", .string w.id),
    ("name", .string w.name),
    ("version", .ofNat w.version),
    ("category", variantJson Category.names w.category),
    ("enabled", .bool w.enabled),
    ("nodeCount", .ofNat w.nodes.length),
    ("updatedAt", w.updatedAt.toJson face)]

/-- All workflows, by id. -/
def listWorkflows (app : App) : Answer := do
  let workflows ← Process.read (·.registry.workflows)
  json 200 (.ofFields [("workflows", .array (workflows.map (summary app.face)))])

/-- One workflow. -/
def getWorkflow (app : App) (id : String) : Answer := do
  match ← Process.read (·.registry.get? id) with
  | some w => json 200 (w.toJson app.face)
  | none => status 404

/-- Put a workflow in the place of another, under the id of that one. -/
def updateWorkflow (id : String) (w : Workflow) : Answer := do
  match ← Process.read (·.registry.get? id) with
  | none => status 404
  | some _ =>
    let w := { w with id }
    let outcome ← Process.step fun world =>
      match world.registry.register (.reading world.now) w with
      | .ok (report, registry) => (Except.ok report, { world with registry })
      | .error e => (.error e, world)
    match outcome with
    | .error _ => status 422
    | .ok report => json 200 (acknowledgement w report "updated")

/-- Take a workflow out. -/
def deleteWorkflow (id : String) : Answer := do
  match ← Process.read (·.registry.get? id) with
  | none => status 404
  | some _ =>
    Process.step fun world => ((), { world with registry := world.registry.drop id })
    json 200 (.ofFields [("message", .string "Workflow deleted successfully")])

/-! ## Runs -/

/-- The record of a run that was waited for. -/
def finished (app : App) (run : Run) : Answer :=
  json (if run.status == .failed then 422 else 200) (run.toJson app.face)

/-- Run a workflow, and wait for the result unless it is not wanted. -/
def executeWorkflow (app : App) (id : String) (request : ExecuteRequest) : Answer := do
  match ← Process.read (·.registry.get? id) with
  | none => status 404
  | some w =>
    let options : RunOptions := { overrides := request.overrides, source := .api }
    if request.background then
      let (run, token) ← app.engine.prepare w request.payload options
      let response := ⟨202, .json (.ofFields [("executionId", .string run.id)])⟩
      return { response, continuation := some ⟨w, run, token⟩ }
    else app.finished (← app.engine.execute w request.payload options)

/-- Run an enabled workflow with the body of the request as its payload. -/
def runHook (app : App) (id : String) (payload : Value) : Answer := do
  match ← Process.read (·.registry.get? id) with
  | none => status 404
  | some w =>
    if w.enabled then app.finished (← app.engine.execute w payload { source := .webhook })
    else status 403

/-- Runs, the oldest first: all, or those of one workflow. -/
def listRuns (app : App) (workflowId : Option String) : Answer := do
  let runs ← Process.readLocked fun world =>
    match workflowId with
    | some id => world.store.listFor id
    | none => world.store.list
  json 200 (.ofFields [("executions", .array (runs.map (·.toJson app.face)))])

/-- One run. -/
def getRun (app : App) (id : String) : Answer := do
  match ← Process.readLocked (·.store.get? id) with
  | some run => json 200 (run.toJson app.face)
  | none => status 404

/-- Cancel a run. -/
def cancelRun (app : App) (id : String) : Answer := do
  let cancelled ← Process.stepLocked (·.cancelRun id)
  let run ← Process.readLocked (·.store.get? id)
  match cancelled, run with
  | true, run =>
    json 200 (.ofFields [
      ("cancelled", .bool true), ("execution", .ofOption (·.toJson app.face) run)])
  | false, some _ => status 409
  | false, none => status 404

/-! ## All requests -/

/-- Carry out what a request asks for. -/
def perform (app : App) (request : Request) (address : Address) : Operation → Answer
  | .health => pure { response := ⟨200, .text "ok"⟩ }
  | .listWorkflows => app.listWorkflows
  | .createWorkflow => do
    let now ← Driver.clock
    reading (request.json (decodeWorkflowRequest now)) createWorkflow
  | .validateWorkflow => do
    let now ← Driver.clock
    reading (request.json (Workflow.decode (.reading now))) fun w => json 200 w.validate.toJson
  | .getWorkflow name => reading (readName "id" name) app.getWorkflow
  | .updateWorkflow name =>
    reading (readName "id" name) fun id => do
      let now ← Driver.clock
      reading (request.json (decodeWorkflowRequest now)) (updateWorkflow id)
  | .deleteWorkflow name => reading (readName "id" name) deleteWorkflow
  | .executeWorkflow name =>
    reading (readName "id" name) fun id =>
      reading (request.optionalJson ExecuteRequest.decode {}) (app.executeWorkflow id)
  | .listRuns => reading address.workflowId app.listRuns
  | .getRun name => reading (readName "id" name) app.getRun
  | .cancelRun name => reading (readName "id" name) app.cancelRun
  | .runHook name =>
    reading (readName "workflow_id" name) fun id =>
      reading (request.optionalJson any .null) (app.runHook id)

/-- Whether the body of a response is sent: none is in answer to `HEAD`,
nor to `CONNECT` when that succeeds. -/
def sendsBody (method : String) (response : Response) : Bool :=
  method != "HEAD" && !(method == "CONNECT" && response.isSuccess)

/-- Answer a request. -/
def answer (app : App) (request : Request) : Answer := do
  let address := Address.ofText request.target
  let reply ←
    match Route.ofSegments? address.segments with
    | none => status 404
    | some route =>
      match route.operation? request.method with
      | none => status 405
      | some operation => app.perform request address operation
  if sendsBody request.method reply.response then return reply
  else return { reply with response.body := .empty }

/-- Answer a request beside the runs in the background; nothing is returned
if it waits for ever. -/
def serve (app : App) (s : Schedule) (request : Request) : Option Response × Schedule :=
  let stops := s.world.registry.workflows.foldl (fun all w => all + Engine.stops w) 2
  match s.serve stops (app.answer request) with
  | (some reply, s) =>
    let s := match reply.continuation with
      | some c => s.background app.engine c.workflow c.run c.token
      | none => s
    (some reply.response, s)
  | (none, s) => (none, s)

end App

end Automation.Http
