/-
Automation.Proofs.Http.RefusalTheorems — refused requests change nothing.

Every handler reads its body, looks things up, checks and changes in an
order of its own, and some operations write on the branch on which they
refuse: a cancellation that comes too late, a creation of an id that is in
use. Still each handler is harmless: before anything is changed, it is clear
that the response will not be one of those with a status from 400 to 499,
unless it is the 422 that reports a run that was executed and failed
(`App.harmless_perform`). What is asked by `GET` under `/api` never changes
anything (`App.harmless_looking`).

So after a refusal, and after such a reading, the world is what the jobs
and the clock make of it, and without jobs it is as it was, up to the time
(`App.refusals_change_nothing`).
-/
import Automation.Proofs.Engine.HarmlessTheorems
import Automation.Proofs.Http.ServerTheorems
import Automation.Proofs.Workflow.RegistryTheorems

namespace Automation

open Process

/-! ## Answers -/

namespace Schedule

variable {α : Type} {s t : Schedule} {p q : Process World α} {post : α → Prop}

theorem Serves.always (h : Serves s p q t) (hp : p.Always post) : q.Always post :=
  h.rest (C := (·.Always post)) (fun _ left access w hq => hq.turn World.signals left access w) hp

/-- What holds of every result holds of the answer. -/
theorem serve_always {stops : Nat} {a : α} (hp : p.Always post)
    (ha : (s.serve stops p).1 = some a) : post a := by
  have hserved := s.served stops p
  generalize s.serve stops p = served at hserved ha
  obtain ⟨a?, t⟩ := served
  obtain rfl : a? = some a := ha
  obtain ⟨q, u, hserves, hturn⟩ := hserved
  have hrest := (hserves.always hp).turn World.signals u.left (u.access u.locks) u.world
  rw [← turn_fst, hturn] at hrest
  exact hrest

end Schedule

namespace Http

/-- Whether a run is executed for the asking. -/
def Operation.runs : Operation → Bool
  | .executeWorkflow _ => true
  | .runHook _ => true
  | _ => false

/-- Whether something is only looked at. -/
def Operation.looks : Operation → Bool
  | .listWorkflows => true
  | .getWorkflow _ => true
  | .listRuns => true
  | .getRun _ => true
  | _ => false

/-- A status that refuses: one from 400 to 499, but not the 422 that reports a
run that was executed. -/
def Refuses (runs : Bool) (status : Nat) : Prop :=
  400 ≤ status ∧ status < 500 ∧ (status = 422 → runs = false)

theorem not_refuses_of_lt {runs : Bool} {status : Nat} (h : status < 400) :
    ¬Refuses runs status :=
  fun hr => absurd hr.1 (Nat.not_le_of_lt h)

theorem not_refuses_unprocessable : ¬Refuses true 422 :=
  fun hr => absurd (hr.2.2 rfl) (by decide)

/-- Nothing is left to the background. -/
def Reply.Idle (reply : Reply) : Prop :=
  reply.continuation = none

/-- What a reply refuses. -/
def Reply.Refuses (runs : Bool) (reply : Reply) : Prop :=
  Http.Refuses runs reply.response.status

namespace App

variable (app : App) {refused : Reply → Prop}

/-! ## Handlers -/

theorem harmless_reply (response : Response) :
    (pure { response } : Answer).Harmless refused Reply.Idle := fun _ => rfl

/-- What is not refused once something has been changed. -/
theorem always_not_refused {runs : Bool} {response : Response} (h : response.status < 400) :
    (pure { response } : Answer).Always fun reply => ¬reply.Refuses runs :=
  not_refuses_of_lt h

theorem harmless_reading {α : Type} {result : Except Rejection α} {next : α → Answer}
    (h : ∀ a, (next a).Harmless refused Reply.Idle) :
    (reading result next).Harmless refused Reply.Idle := by
  cases result with
  | error _ => exact harmless_reply _
  | ok a => exact h a

/-- A workflow whose id is in use is not created. -/
theorem harmless_createWorkflow (w : Workflow) :
    (createWorkflow w).Harmless (Reply.Refuses false) Reply.Idle := by
  unfold createWorkflow
  split
  · exact harmless_reply _
  · refine harmless_step_bind fun s => ?_
    cases hcreate : s.registry.create (.reading s.now) w with
    | error _ => exact Or.inl ⟨rfl, harmless_reply _⟩
    | ok created =>
      obtain ⟨report, registry⟩ := created
      obtain ⟨-, ⟨rfl, rfl⟩ | ⟨-, rfl, rfl⟩⟩ := Registry.create_eq_ok hcreate
      · exact Or.inl ⟨rfl, harmless_reply _⟩
      · exact Or.inr (always_not_refused (show 201 < 400 by decide))

theorem harmless_updateWorkflow (id : String) (w : Workflow) :
    (updateWorkflow id w).Harmless (Reply.Refuses false) Reply.Idle := by
  refine harmless_read_bind fun s => ?_
  cases s.registry.get? id with
  | none => exact harmless_reply _
  | some old =>
    refine harmless_step_bind fun s₁ => ?_
    cases s₁.registry.register (.reading s₁.now) { w with id } with
    | error _ => exact Or.inl ⟨rfl, harmless_reply _⟩
    | ok registered => exact Or.inr (always_not_refused (show 200 < 400 by decide))

theorem harmless_deleteWorkflow (id : String) :
    (deleteWorkflow id).Harmless (Reply.Refuses false) Reply.Idle := by
  refine harmless_read_bind fun s => ?_
  cases s.registry.get? id with
  | none => exact harmless_reply _
  | some old =>
    exact harmless_step_bind fun s₁ => Or.inr (always_not_refused (show 200 < 400 by decide))

/-- A run that is not cancelled is left as it is. -/
theorem harmless_cancelRun (id : String) :
    (app.cancelRun id).Harmless (Reply.Refuses false) Reply.Idle := by
  refine harmless_stepLocked_bind fun s => ?_
  cases hcancel : (s.cancelRun id).1 with
  | true => exact Or.inr fun s₁ => always_not_refused (show 200 < 400 by decide)
  | false =>
    refine Or.inl ⟨World.cancelRun_of_false hcancel, harmless_readLocked_bind fun s₁ => ?_⟩
    cases s₁.store.get? id <;> exact harmless_reply _

/-- What is answered when a run was waited for. -/
theorem always_finished (run : Run) :
    (app.finished run).Always fun reply => ¬reply.Refuses true := by
  unfold finished
  split
  · exact not_refuses_unprocessable
  · exact always_not_refused (show 200 < 400 by decide)

/-- Once a run is set off, the answer is the 202 of a run in the background or
reports the run. -/
theorem harmless_executeWorkflow (id : String) (request : ExecuteRequest) :
    (app.executeWorkflow id request).Harmless (Reply.Refuses true) Reply.Idle := by
  refine harmless_read_bind fun s => ?_
  cases s.registry.get? id with
  | none => exact harmless_reply _
  | some w =>
    refine Always.harmless ?_
    dsimp only
    split
    · refine always_bind _ fun set => ?_
      exact not_refuses_of_lt (show 202 < 400 by decide)
    · exact always_bind _ fun run => app.always_finished run

theorem harmless_runHook (id : String) (payload : Json.Value) :
    (app.runHook id payload).Harmless (Reply.Refuses true) Reply.Idle := by
  refine harmless_read_bind fun s => ?_
  cases s.registry.get? id with
  | none => exact harmless_reply _
  | some w =>
    dsimp only
    split
    · exact Always.harmless (always_bind _ fun run => app.always_finished run)
    · exact harmless_reply _

/-- **Every operation is harmless**: what it refuses it does not begin. -/
theorem harmless_perform (request : Request) (address : Address) (operation : Operation) :
    (app.perform request address operation).Harmless (Reply.Refuses operation.runs)
      Reply.Idle := by
  cases operation with
  | health => exact harmless_reply _
  | listWorkflows => exact harmless_read_bind fun s => harmless_reply _
  | createWorkflow =>
    exact harmless_read_bind fun s => harmless_reading fun w => harmless_createWorkflow w
  | validateWorkflow =>
    exact harmless_read_bind fun s => harmless_reading fun w => harmless_reply _
  | getWorkflow name =>
    refine harmless_reading fun id => harmless_read_bind fun s => ?_
    cases s.registry.get? id <;> exact harmless_reply _
  | updateWorkflow name =>
    refine harmless_reading fun id => harmless_read_bind fun s => ?_
    exact harmless_reading fun w => harmless_updateWorkflow id w
  | deleteWorkflow name => exact harmless_reading harmless_deleteWorkflow
  | executeWorkflow name =>
    exact harmless_reading fun id => harmless_reading fun r => app.harmless_executeWorkflow id r
  | listRuns =>
    exact harmless_reading fun id => harmless_readLocked_bind fun s => harmless_reply _
  | getRun name =>
    refine harmless_reading fun id => harmless_readLocked_bind fun s => ?_
    cases s.store.get? id <;> exact harmless_reply _
  | cancelRun name => exact harmless_reading fun id => app.harmless_cancelRun id
  | runHook name =>
    exact harmless_reading fun id => harmless_reading fun v => app.harmless_runHook id v

/-- Looking at workflows and runs is harmless, whatever the answer. -/
theorem harmless_looking {request : Request} {address : Address} {operation : Operation}
    (h : operation.looks = true) :
    (app.perform request address operation).Harmless (fun _ => True) Reply.Idle := by
  cases operation with
  | listWorkflows => exact harmless_read_bind fun s => harmless_reply _
  | getWorkflow name =>
    refine harmless_reading fun id => harmless_read_bind fun s => ?_
    cases s.registry.get? id <;> exact harmless_reply _
  | listRuns =>
    exact harmless_reading fun id => harmless_readLocked_bind fun s => harmless_reply _
  | getRun name =>
    refine harmless_reading fun id => harmless_readLocked_bind fun s => ?_
    cases s.store.get? id <;> exact harmless_reply _
  | _ => cases h

end App

/-! ## Requests -/

/-- Whether a run is executed for a request. -/
def Request.runs (r : Request) : Bool :=
  r.operation?.any (·.runs)

/-- A request by `GET` for something under `/api`. -/
def Request.Reads (r : Request) : Prop :=
  r.method = "GET" ∧ (Address.ofText r.target).segments.head? = some "api"

/-- `GET` means to look at something on every route but that of a hook and that
of the health. -/
theorem Route.looks {route : Route} {operation : Operation}
    (h : route.operation? "GET" = some operation) (hhealth : route ≠ .health)
    (hhook : ∀ name, route ≠ .hook name) : operation.looks = true := by
  cases route with
  | health => exact absurd rfl hhealth
  | hook name => exact absurd rfl (hhook name)
  | workflows | workflow _ | runs | run _ =>
    obtain rfl := Option.some.inj h
    rfl
  | validation | execution _ | cancellation _ => cases h

/-- `GET` under `/api` asks to look at something, if for anything. -/
theorem Request.Reads.looks {r : Request} {operation : Operation} (h : r.Reads)
    (hoperation : r.operation? = some operation) : operation.looks = true := by
  obtain ⟨hmethod, hpath⟩ := h
  obtain ⟨route, hroute, hmeans⟩ := Option.bind_eq_some_iff.mp hoperation
  rw [hmethod] at hmeans
  refine Route.looks hmeans ?_ ?_
  · rintro rfl
    unfold Route.ofSegments? at hroute
    split at hroute <;> simp_all
  · rintro name rfl
    unfold Route.ofSegments? at hroute
    split at hroute <;> simp_all

namespace App

variable (app : App)

/-- An answer that changes nothing: it refuses the request, or the request is
one to read. -/
def Spares (request : Request) (reply : Reply) : Prop :=
  reply.Refuses request.runs ∨ request.Reads

theorem harmless_respond (request : Request) :
    (app.respond request).Harmless (Spares request) Reply.Idle := by
  unfold respond
  cases hoperation : request.operation? with
  | none =>
    cases Route.ofSegments? (Address.ofText request.target).segments <;> exact harmless_reply _
  | some operation =>
    by_cases hreads : request.Reads
    · exact (app.harmless_looking (hreads.looks hoperation)).mono fun _ _ => trivial
    · have hruns : request.runs = operation.runs := by
        simp [Request.runs, hoperation]
      refine (app.harmless_perform request _ operation).mono fun reply hspares => ?_
      rw [← hruns]
      exact hspares.resolve_right hreads

/-- **Every request is harmless.** -/
theorem harmless_answer (request : Request) :
    (app.answer request).Harmless (Spares request) Reply.Idle := by
  rw [answer_eq]
  refine Harmless.bind_done ?_ ?_ (app.harmless_respond request)
  · intro reply
    unfold Spares Reply.Refuses
    rw [sent_status]
    exact id
  · intro reply
    unfold Reply.Idle
    rw [sent_continuation]
    exact id

/-! ## What is reported -/

/-- A run that was executed and failed is reported. -/
def Reports (request : Request) (response : Response) : Prop :=
  ∃ run : Run, run.status = .failed ∧
    response = (sent request { response := ⟨422, .json (run.toJson app.face)⟩ }).response

/-- A 422 that the operation itself replies with. -/
def Told (reply : Reply) : Prop :=
  reply.response.status = 422 → ∃ run : Run, run.status = .failed ∧
    reply.response = ⟨422, .json (run.toJson app.face)⟩

theorem told_finished (run : Run) : (app.finished run).Always app.Told := by
  unfold finished
  split
  · next hfailed => exact fun _ => ⟨run, by simpa using hfailed, rfl⟩
  · exact fun h => absurd h (show ¬200 = 422 by decide)

/-- Any other status than 422 tells nothing. -/
theorem told_of_ne {reply : Reply} (h : reply.response.status ≠ 422) :
    (pure reply : Answer).Always app.Told := fun h422 => absurd h422 h

theorem told_readName {parameter name : String} {next : String → Answer}
    (h : ∀ id, (next id).Always app.Told) :
    (reading (readName parameter name) next).Always app.Told := by
  unfold readName
  split
  · exact h _
  · exact app.told_of_ne (show 400 ≠ 422 by decide)

theorem told_optionalJson {request : Request} {α : Type} {decode : Decode.Decoder α} {absent : α}
    {next : α → Answer} (h : ∀ a, (next a).Always app.Told) :
    (reading (request.optionalJson decode absent) next).Always app.Told := by
  unfold Request.optionalJson Request.content
  split
  · change (reading (if Text.isAllBlank request.body then _ else _) next).Always app.Told
    split
    · exact h _
    · cases readJson decode request.body with
      | ok a => exact h a
      | error _ => exact app.told_of_ne (show 400 ≠ 422 by decide)
  · exact app.told_of_ne (show 413 ≠ 422 by decide)

/-- When a run is asked for, a 422 tells of one that failed. -/
theorem always_told {request : Request} {address : Address} {operation : Operation}
    (h : operation.runs = true) : (app.perform request address operation).Always app.Told := by
  cases operation with
  | executeWorkflow name =>
    refine app.told_readName fun id => app.told_optionalJson fun r => ?_
    refine always_bind _ fun w? => ?_
    cases w? with
    | none => exact app.told_of_ne (show 404 ≠ 422 by decide)
    | some w =>
      dsimp only
      split
      · exact always_bind _ fun set => app.told_of_ne (show 202 ≠ 422 by decide)
      · exact always_bind _ fun run => app.told_finished run
  | runHook name =>
    refine app.told_readName fun id => app.told_optionalJson fun payload => ?_
    refine always_bind _ fun w? => ?_
    cases w? with
    | none => exact app.told_of_ne (show 404 ≠ 422 by decide)
    | some w =>
      dsimp only
      split
      · exact always_bind _ fun run => app.told_finished run
      · exact app.told_of_ne (show 403 ≠ 422 by decide)
  | _ => cases h

theorem always_reports (request : Request) : (app.answer request).Always fun reply =>
    request.runs = true → reply.response.status = 422 → app.Reports request reply.response := by
  rw [answer_eq]
  cases hoperation : request.operation? with
  | none =>
    have hruns : request.runs = false := by simp [Request.runs, hoperation]
    exact always_bind _ fun reply h => by simp [hruns] at h
  | some operation =>
    have hruns : request.runs = operation.runs := by simp [Request.runs, hoperation]
    have hrespond : app.respond request =
        app.perform request (Address.ofText request.target) operation := by
      unfold respond
      rw [hoperation]
    rw [hrespond, hruns]
    by_cases hop : operation.runs = true
    · refine Always.bind (fun reply htold => ?_) (app.always_told hop)
      intro _ hstatus
      rw [sent_status] at hstatus
      obtain ⟨run, hfailed, hresponse⟩ := htold hstatus
      refine ⟨run, hfailed, ?_⟩
      rw [sent_response, hresponse]
    · exact always_bind _ fun reply h => absurd h hop

end App

/-! ## Servers -/

namespace App

variable (app : App)

/-- All jobs of a server are tame. -/
theorem tame_handle {s : Schedule} (h : ∀ job ∈ s.jobs, job.Tame) (event : Event) :
    ∀ job ∈ (app.handle s event).jobs, job.Tame := by
  cases event with
  | pass ms => exact Schedule.each_serve Schedule.tame_turn _ _ h
  | request r =>
    have hserved := Schedule.each_serve Schedule.tame_turn (stops s) (app.answer r) h
    unfold handle
    dsimp only
    rw [serve_eq]
    unfold leave
    split
    · exact Schedule.tame_background hserved _ _ _ _
    · exact hserved

theorem tame_handleAll (events : List Event) : ∀ {s : Schedule}, (∀ job ∈ s.jobs, job.Tame) →
    ∀ job ∈ (app.handleAll events s).jobs, job.Tame := by
  induction events with
  | nil => exact id
  | cons event events ih => exact fun h => ih (app.tame_handle h event)

/-- What is answered with such a response leaves the world to the jobs. -/
theorem serve_spares {s : Schedule} {request : Request} {response : Response}
    (hresponse : (app.serve s request).1 = some response)
    (hspares : Refuses request.runs response.status ∨ request.Reads) :
    Schedule.Drifts s.world s.jobs (app.serve s request).2.world (app.serve s request).2.jobs := by
  rw [serve_eq] at hresponse ⊢
  obtain ⟨reply, hreply, rfl⟩ := Option.map_eq_some_iff.mp hresponse
  obtain ⟨hdrifts, hidle⟩ := Schedule.refused_drifts (app.harmless_answer request) hreply hspares
  have hnone : reply.continuation = none := hidle
  dsimp only
  rw [hreply, Option.bind_some, hnone]
  exact hdrifts

/-- What is reported to whoever asks for a run. -/
theorem serve_reports {s : Schedule} {request : Request} {response : Response}
    (hresponse : (app.serve s request).1 = some response) (hruns : request.runs = true)
    (hstatus : response.status = 422) : app.Reports request response := by
  rw [serve_eq] at hresponse
  obtain ⟨reply, hreply, rfl⟩ := Option.map_eq_some_iff.mp hresponse
  exact Schedule.serve_always (app.always_reports request) hreply hruns hstatus

/-- **Refused requests change nothing**, and neither do requests to read. In
every state that a server can come to from any world: if the answer has a status from 400
to 499 and does not report a run that was executed, or if the request is by
`GET` and for something under `/api`, then the registry stays as it is, no
run is set off, and the world and the jobs become what they become by
themselves; without jobs, nothing but the time is another one. And a 422 in
answer to a request to execute a run reports a run that failed. -/
theorem refusals_change_nothing (world : World) (events : List Event) (request : Request)
    (response : Response)
    (hresponse : (app.serve (app.handleAll events { world }) request).1 = some response) :
    let s := app.handleAll events { world }
    let s' := (app.serve s request).2
    (Refuses request.runs response.status ∨ request.Reads →
      s'.world.registry = s.world.registry ∧ s'.world.runs = s.world.runs ∧
      Schedule.Drifts s.world s.jobs s'.world s'.jobs ∧
      (s.jobs = 0 → s'.jobs = 0 ∧ s'.world = { s.world with now := s'.world.now })) ∧
    (request.runs = true → response.status = 422 → app.Reports request response) := by
  intro s s'
  have htame : ∀ job ∈ s.jobs, job.Tame := app.tame_handleAll events fun job hjob => by cases hjob
  refine ⟨fun hspares => ?_, app.serve_reports hresponse⟩
  have hdrifts : Schedule.Drifts s.world s.jobs s'.world s'.jobs :=
    app.serve_spares hresponse hspares
  have hjobs : ∀ job ∈ s.jobs, job.Does (World.Passes fun _ => True) :=
    fun job hjob => (htame job hjob).passes trivial
  have hpasses := (hdrifts.relates (fun _ => .rfl) (fun _ _ _ => .trans) .setNow hjobs).1
  exact ⟨hpasses.registry, hpasses.runs, hdrifts, fun hnobody => (hdrifts.of_nobody hnobody).symm⟩

/-- A server with the usual executors. -/
def usual : App where
  engine := { executors := .builtin .utc default, config := default }
  face := .utc

/-- A world with one workflow. -/
def shelf : World :=
  { registry := ⟨[{ (default : Workflow) with id := "a" }]⟩ }

/-- The deletion of another workflow is refused. -/
theorem refused_deletion :
    let s := usual.handleAll [.pass 5] { world := shelf }
    let served := usual.serve s ⟨"DELETE", "/api/workflows/b", none, ""⟩
    served.1.map (·.status) = some 404 ∧ served.2.world.registry = s.world.registry := by
  intro s served
  have hstatus : served.1.map (·.status) = some 404 := by decide +kernel
  obtain ⟨response, hresponse, h404⟩ := Option.map_eq_some_iff.mp hstatus
  have hspared := (usual.refusals_change_nothing shelf [.pass 5] _ response hresponse).1
  refine ⟨hstatus, (hspared (Or.inl ?_)).1⟩
  rw [h404]
  exact ⟨by decide, by decide, by decide⟩

end App

end Http

end Automation
