/-
Automation.Proofs.Http.ResourceTheorems — workflows under their paths.

A workflow that was created is found, replaced and deleted under its path,
whatever else the server is asked for in between (`App.Serves`): the handlers
do what they do at once (`Schedule.serve_of_carry`), and what the registry has
under an id outlasts all requests that do not write there
(`Request.Spares`). One path is taken: what is created under the id
`validate` is asked for where the validation is, and that knows `POST` only
(`App.Shut`).
-/
import Automation.Proofs.Engine.StraightTheorems
import Automation.Proofs.Http.AddressTheorems
import Automation.Proofs.Http.RefusalTheorems
import Automation.Proofs.Http.UpkeepTheorems

namespace Automation.Http

open Process
open Automation.Time (Timestamp)

/-! ## What a request may write -/

/-- A request to replace the workflow of an id. -/
def Request.Replaces (r : Request) (id : String) : Prop :=
  ∃ name, r.operation? = some (.updateWorkflow name) ∧ segmentName? name = some id

/-- A request to create a workflow of an id. -/
def Request.Creates (r : Request) (id : String) : Prop :=
  r.operation? = some .createWorkflow ∧
    ∃ now w, r.json (decodeWorkflowRequest now) = .ok w ∧ w.id = id

/-- A request to replace or to delete the workflow of an id. -/
def Event.Touches (id : String) : Event → Prop
  | .request r => r.Replaces id ∨ r.deletes id = true
  | .pass _ => False

/-- A request to create a workflow of an id. -/
def Event.Creates (id : String) : Event → Prop
  | .request r => r.Creates id
  | .pass _ => False

theorem Request.deletes_iff {r : Request} {id : String} : r.deletes id = true ↔
    ∃ name, r.operation? = some (.deleteWorkflow name) ∧ segmentName? name = some id := by
  unfold Request.deletes
  split
  · next name hoperation => simp [hoperation]
  · next hoperation =>
    refine ⟨(fun h => by cases h), ?_⟩
    rintro ⟨name, heq, -⟩
    exact absurd heq (hoperation name)

/-- What an id has stays until it is replaced or deleted. -/
theorem Event.spares_found {event : Event} {id : String} {w : Workflow}
    (h : ¬event.Touches id) : event.Spares fun r => r.get? id = some w := by
  cases event with
  | pass _ => trivial
  | request r =>
    obtain ⟨hreplaces, hdeletes⟩ := not_or.mp h
    refine ⟨?_, ?_, ?_⟩
    · rintro - now v - registry t hheld hfree
      have hne : v.id ≠ id := by
        rintro rfl
        rw [hheld] at hfree
        cases hfree
      exact (Registry.get?_put_ne hne).trans hheld
    · rintro name id' hoperation hname - - - registry t v hheld rfl
      have hne : v.id ≠ id := by
        rintro rfl
        exact hreplaces ⟨name, hoperation, hname⟩
      exact (Registry.get?_put_ne hne).trans hheld
    · rintro name id' hoperation hname registry hheld
      have hne : id' ≠ id := by
        rintro rfl
        exact hdeletes (Request.deletes_iff.mpr ⟨name, hoperation, hname⟩)
      exact (Registry.get?_drop_ne hne).trans hheld

/-- An id that is free stays so until a workflow is created under it: there is
nothing to be replaced. -/
theorem Event.spares_free {event : Event} {id : String} (h : ¬event.Creates id) :
    event.Spares fun r => r.get? id = none := by
  cases event with
  | pass _ => trivial
  | request r =>
    refine ⟨?_, ?_, ?_⟩
    · rintro hoperation now v hv registry t hheld -
      have hne : v.id ≠ id := fun heq => h ⟨hoperation, now, v, hv, heq⟩
      exact (Registry.get?_put_ne hne).trans hheld
    · rintro name id' - - known hknown hsome registry t v hheld rfl
      have hne : v.id ≠ id := by
        rintro rfl
        exact hsome hknown
      exact (Registry.get?_put_ne hne).trans hheld
    · rintro name id' - - registry hheld
      by_cases heq : id' = id
      · exact heq ▸ registry.get?_drop id'
      · exact (Registry.get?_drop_ne heq).trans hheld

namespace App

variable (app : App) {s : Schedule} {r : Request}

/-! ## Handlers -/

/-- An operation that never gives way is answered at once. -/
theorem serve_of_carry {operation : Operation} {reply : Reply} {w : World}
    (hoperation : r.operation? = some operation)
    (hcarry : (app.perform r (Address.ofText r.target) operation).carry s.world = some (reply, w))
    (hreply : reply.continuation = none) :
    (app.serve s r).1 = some (sent r reply).response ∧ (app.serve s r).2.world = w := by
  have hanswer : (app.answer r).carry s.world = some (sent r reply, w) := by
    have hrespond : app.respond r = app.perform r (Address.ofText r.target) operation := by
      unfold respond
      rw [hoperation]
    rw [answer_eq, hrespond, carry_bind hcarry]
    rfl
  obtain ⟨hserved, hworld⟩ := Schedule.serve_of_carry (stops s) hanswer
  rw [serve_eq, hserved]
  refine ⟨rfl, ?_⟩
  rw [Option.bind_some, sent_continuation, hreply]
  exact hworld

/-- A request that its path does not know. -/
theorem serve_unknown (route : Route) (hoperation : r.operation? = none)
    (hroute : Route.ofSegments? (Address.ofText r.target).segments = some route) :
    (app.serve s r).1.map (·.status) = some 405 := by
  have hanswer : (app.answer r).carry s.world =
      some (sent r { response := { status := 405 } }, s.world) := by
    have hrespond : app.respond r = status 405 := by
      unfold respond
      rw [hoperation, hroute]
    rw [answer_eq, hrespond]
    rfl
  rw [serve_eq, (Schedule.serve_of_carry (stops s) hanswer).1]
  exact congrArg some (sent_status r _)

variable {name id : String} {w : Workflow}

/-- A workflow that is there is shown. -/
theorem serve_get (hoperation : r.operation? = some (.getWorkflow name))
    (hname : segmentName? name = some id) (hget : r.method = "GET")
    (hfound : s.world.registry.get? id = some w) :
    (app.serve s r).1 = some ⟨200, .json (w.toJson app.face)⟩ := by
  have hcarry : (app.perform r (Address.ofText r.target) (.getWorkflow name)).carry s.world =
      some ({ response := ⟨200, .json (w.toJson app.face)⟩ }, s.world) := by
    rw [perform, readName_eq_ok.mpr hname, reading, getWorkflow, carry_read_bind, hfound]
    rfl
  rw [(app.serve_of_carry hoperation hcarry rfl).1, sent, hget]
  rfl

/-- A workflow that is not there is not found. -/
theorem serve_get_none (hoperation : r.operation? = some (.getWorkflow name))
    (hname : segmentName? name = some id) (hfound : s.world.registry.get? id = none) :
    (app.serve s r).1.map (·.status) = some 404 := by
  have hcarry : (app.perform r (Address.ofText r.target) (.getWorkflow name)).carry s.world =
      some ({ response := { status := 404 } }, s.world) := by
    rw [perform, readName_eq_ok.mpr hname, reading, getWorkflow, carry_read_bind, hfound]
    rfl
  rw [(app.serve_of_carry hoperation hcarry rfl).1]
  exact congrArg some (sent_status r _)

/-- A valid workflow is put in the place of one that is there. -/
theorem serve_put (hoperation : r.operation? = some (.updateWorkflow name))
    (hname : segmentName? name = some id) (hfound : s.world.registry.get? id ≠ none)
    (hread : r.json (decodeWorkflowRequest s.world.now) = .ok w) (hvalid : w.isValid = true) :
    (app.serve s r).1.map (·.status) = some 200 ∧ (app.serve s r).2.world.registry =
      s.world.registry.put (.reading s.world.now) { w with id } := by
  obtain ⟨old, hold⟩ := Option.ne_none_iff_exists'.mp hfound
  have hregister : s.world.registry.register (.reading s.world.now) { w with id } =
      .ok ({ w with id }.validate, s.world.registry.put (.reading s.world.now) { w with id }) :=
    if_pos hvalid
  obtain ⟨response, hstatus, hcarry⟩ : ∃ response : Response, response.status = 200 ∧
      (app.perform r (Address.ofText r.target) (.updateWorkflow name)).carry s.world =
        some ({ response }, { s.world with
          registry := s.world.registry.put (.reading s.world.now) { w with id } }) := by
    refine ⟨⟨200, .json (acknowledgement { w with id } { w with id }.validate "updated")⟩, rfl, ?_⟩
    rw [perform, readName_eq_ok.mpr hname, reading, Driver.clock, carry_read_bind, hread, reading,
      updateWorkflow, carry_read_bind, hold]
    dsimp only
    rw [carry_step_bind, hregister]
    rfl
  obtain ⟨hanswer, hworld⟩ := app.serve_of_carry hoperation hcarry rfl
  refine ⟨?_, congrArg World.registry hworld⟩
  rw [hanswer, Option.map_some, sent_status, hstatus]

/-- A workflow that is there is taken out. -/
theorem serve_delete (hoperation : r.operation? = some (.deleteWorkflow name))
    (hname : segmentName? name = some id) (hfound : s.world.registry.get? id ≠ none) :
    (app.serve s r).1.map (·.status) = some 200 ∧
      (app.serve s r).2.world.registry = s.world.registry.drop id := by
  obtain ⟨old, hold⟩ := Option.ne_none_iff_exists'.mp hfound
  obtain ⟨response, hstatus, hcarry⟩ : ∃ response : Response, response.status = 200 ∧
      (app.perform r (Address.ofText r.target) (.deleteWorkflow name)).carry s.world =
        some ({ response }, { s.world with registry := s.world.registry.drop id }) := by
    refine ⟨⟨200, .json (.ofFields [("message", .string "Workflow deleted successfully")])⟩,
      rfl, ?_⟩
    rw [perform, readName_eq_ok.mpr hname, reading, deleteWorkflow, carry_read_bind, hold]
    rfl
  obtain ⟨hanswer, hworld⟩ := app.serve_of_carry hoperation hcarry rfl
  refine ⟨?_, congrArg World.registry hworld⟩
  rw [hanswer, Option.map_some, sent_status, hstatus]

/-- A creation is answered at once. It is acknowledged if the id is not blank,
the workflow is valid and the id is free, and then it was taken in. -/
theorem carry_createWorkflow (w : Workflow) (world : World) :
    ∃ reply world', (createWorkflow w).carry world = some (reply, world') ∧
      reply.continuation = none ∧
      (reply.response.status = 201 ↔ Text.isAllBlank w.id = false ∧ w.isValid = true ∧
        world.registry.get? w.id = none) ∧
      (reply.response.status = 201 → world'.registry.get? w.id = some w) := by
  unfold createWorkflow
  split
  · next hid => exact ⟨_, _, rfl, rfl, by simp [hid], by simp⟩
  · next hid =>
    rw [carry_step_bind]
    cases hcreate : world.registry.create (.reading world.now) w with
    | error _ =>
      have hvalid : w.isValid ≠ true := by
        intro hvalid
        simp [Registry.create, hvalid] at hcreate
      exact ⟨_, _, rfl, rfl, by simp [hvalid], by simp⟩
    | ok created =>
      obtain ⟨report, registry⟩ := created
      obtain ⟨hvalid, ⟨rfl, rfl⟩ | ⟨hfree, rfl, rfl⟩⟩ := Registry.create_eq_ok hcreate
      · have hused : world.registry.get? w.id ≠ none := by
          intro hfree
          simp [Registry.create, hvalid, hfree] at hcreate
        exact ⟨_, _, rfl, rfl, by simp [hused], by simp⟩
      · refine ⟨_, _, rfl, rfl, by simp_all, fun _ => ?_⟩
        have hget : (world.registry.put (.reading world.now) w).get? w.id =
            some (world.registry.stamped (.reading world.now) w) := Registry.get?_put
        rwa [Registry.stamped, hfree] at hget

/-- Which creations are acknowledged, and that these were taken in. -/
theorem serve_post (hoperation : r.operation? = some .createWorkflow)
    (hread : r.json (decodeWorkflowRequest s.world.now) = .ok w) :
    ((app.serve s r).1.map (·.status) = some 201 ↔ Text.isAllBlank w.id = false ∧
      w.isValid = true ∧ s.world.registry.get? w.id = none) ∧
    ((app.serve s r).1.map (·.status) = some 201 →
      (app.serve s r).2.world.registry.get? w.id = some w) := by
  have hperform : (app.perform r (Address.ofText r.target) .createWorkflow).carry s.world =
      (createWorkflow w).carry s.world := by
    rw [perform, Driver.clock, carry_read_bind, hread, reading]
  obtain ⟨reply, world', hcarry, hcontinuation, hiff, htaken⟩ := carry_createWorkflow w s.world
  obtain ⟨hanswer, hworld⟩ := app.serve_of_carry hoperation (hperform.trans hcarry) hcontinuation
  rw [hanswer, Option.map_some, sent_status, Option.some.injEq, hworld]
  exact ⟨hiff, htaken⟩

/-- What is acknowledged as created was read from the body. -/
theorem read_of_created (hoperation : r.operation? = some .createWorkflow)
    (hcreated : (app.serve s r).1.map (·.status) = some 201) :
    ∃ w, r.json (decodeWorkflowRequest s.world.now) = .ok w := by
  cases hread : r.json (decodeWorkflowRequest s.world.now) with
  | ok w => exact ⟨w, rfl⟩
  | error e =>
    have hperform : (app.perform r (Address.ofText r.target) .createWorkflow).carry s.world =
        some ({ response := e.response }, s.world) := by
      rw [perform, Driver.clock, carry_read_bind, hread]
      rfl
    rw [(app.serve_of_carry hoperation hperform rfl).1, Option.map_some, sent_status] at hcreated
    cases e <;> cases hcreated

/-! ## Paths -/

/-- Under the path of this name the workflow is found; a valid one that is put
there takes its place, under its id and with its date of creation, and is
found there until the id is written to again; and once it is deleted, nothing
is found there until the id is created again. What is put there is what
`Request.json` reads: a body that is too long or that is no workflow is refused
before. Which paths are too long to be asked for at all is not the application's
to say (`Request.target`). -/
structure Serves (s : Schedule) (name : String) (w : Workflow) : Prop where
  found : ∀ contentType body,
    (app.serve s ⟨"GET", workflowPath name, contentType, body⟩).1 =
      some ⟨200, .json (w.toJson app.face)⟩
  replaced : ∀ contentType body v,
    let r : Request := ⟨"PUT", workflowPath name, contentType, body⟩
    let v' : Workflow :=
      { v with id := w.id, createdAt := w.createdAt, updatedAt := .reading s.world.now }
    r.json (decodeWorkflowRequest s.world.now) = .ok v → v.validate.valid = true →
    (app.serve s r).1.map (·.status) = some 200 ∧
    ∀ later : List Event, (∀ event ∈ later, ¬event.Touches w.id) →
      ∀ contentType body, (app.serve (app.handleAll later (app.serve s r).2)
        ⟨"GET", workflowPath name, contentType, body⟩).1 = some ⟨200, .json (v'.toJson app.face)⟩
  deleted : ∀ contentType body,
    let r : Request := ⟨"DELETE", workflowPath name, contentType, body⟩
    (app.serve s r).1.map (·.status) = some 200 ∧
    ∀ later : List Event, (∀ event ∈ later, ¬event.Creates w.id) →
      ∀ contentType body, (app.serve (app.handleAll later (app.serve s r).2)
        ⟨"GET", workflowPath name, contentType, body⟩).1.map (·.status) = some 404

/-- Under the path of this name a workflow can neither be looked at nor written. -/
def Shut (s : Schedule) (name : String) : Prop :=
  ∀ method ∈ ["GET", "PUT", "DELETE"], ∀ contentType body,
    (app.serve s ⟨method, workflowPath name, contentType, body⟩).1.map (·.status) = some 405

/-- The path of the validation is shut. -/
theorem shut_validate : app.Shut s "validate" := by
  intro method hmethod contentType body
  have hspells := spells_percentEncode "validate"
  rw [percentEncode_eq_validate.mpr rfl] at hspells
  have hunknown : Route.validation.operation? method = none := by
    rcases List.mem_cons.mp hmethod with rfl | hmethod
    · rfl
    rcases List.mem_cons.mp hmethod with rfl | hmethod
    · rfl
    · rw [List.mem_singleton.mp hmethod]
      rfl
  have hroute := segments_workflowPath hspells
  refine app.serve_unknown .validation ?_ (congrArg Route.ofSegments? hroute)
  rwa [operation?_workflowPath hspells (by decide), if_pos rfl]

section

variable (hup : s.Upkept app.engine fun _ => True)

include hup

/-- What a request leaves under an id is there until it is written to again. -/
theorem found_later (held : Registry → Prop) (r : Request)
    (hheld : held (app.serve s r).2.world.registry) {later : List Event}
    (hlater : ∀ event ∈ later, event.Spares held) :
    held (app.handleAll later (app.serve s r).2).world.registry := by
  have hspares : (Event.request r).Spares fun _ => True :=
    Event.spares _ (fun _ _ _ _ => trivial) fun _ _ _ _ => trivial
  have hserved : (app.serve s r).2.Upkept app.engine fun _ => True := app.upkept_handle hup hspares
  exact (app.upkept_of_spares later (hserved.holding hheld) hlater).world.2.held

/-- Every other path serves what the registry has under its id. -/
theorem serves_of_get? (hspells : Spells name w.id) (hname : name ≠ "validate")
    (hfound : s.world.registry.get? w.id = some w) : app.Serves s name w := by
  have hid : w.id ≠ "" := by
    intro hempty
    have hblank := (hup.world.2.registry.admissible w (Registry.get?_mem hfound).1).id
    rw [hempty] at hblank
    cases hblank
  have hoperation : ∀ method contentType body,
      Request.operation? ⟨method, workflowPath name, contentType, body⟩ =
        (Route.workflow name).operation? method := by
    intro method contentType body
    rw [operation?_workflowPath hspells hid, if_neg hname]
  have hsome : s.world.registry.get? w.id ≠ none := by simp [hfound]
  refine ⟨?_, ?_, ?_⟩
  · exact fun contentType body =>
      app.serve_get (hoperation "GET" contentType body) hspells.names rfl hfound
  · intro contentType body v r v' hread hvalid
    obtain ⟨hanswer, hregistry⟩ :=
      app.serve_put (hoperation "PUT" contentType body) hspells.names hsome hread hvalid
    refine ⟨hanswer, fun later hlater contentType body => ?_⟩
    have hplaced : (app.serve s r).2.world.registry.get? w.id = some v' := by
      rw [hregistry]
      have hget : (s.world.registry.put (.reading s.world.now) { v with id := w.id }).get? w.id =
          some (s.world.registry.stamped (.reading s.world.now) { v with id := w.id }) :=
        Registry.get?_put
      simp only [Registry.stamped, hfound] at hget
      exact hget
    have hstays := app.found_later hup (fun r => r.get? w.id = some v') r hplaced
      fun event hevent => Event.spares_found (hlater event hevent)
    exact app.serve_get (hoperation "GET" contentType body) hspells.names rfl hstays
  · intro contentType body r
    obtain ⟨hanswer, hregistry⟩ :=
      app.serve_delete (hoperation "DELETE" contentType body) hspells.names hsome
    refine ⟨hanswer, fun later hlater contentType body => ?_⟩
    have hgone : (app.serve s r).2.world.registry.get? w.id = none := by
      rw [hregistry]
      exact Registry.get?_drop _ _
    have hstays := app.found_later hup (fun r => r.get? w.id = none) r hgone
      fun event hevent => Event.spares_free (hlater event hevent)
    exact app.serve_get_none (hoperation "GET" contentType body) hspells.names hstays

end

/-- **Where a created workflow is.** In every state that a server can come to
from an empty registry and store, a creation that is answered by 201 is the
creation of the workflow in its body. Until somebody asks to replace or delete
its id, whatever else happens, the path of its encoded id serves it, and so
does every other path that spells the id, but for the one path that ends in
the word `validate`: that of the workflow of this id is shut. -/
theorem created_served (services : Services) (series : Series) (events : List Event)
    (request : Request) (hoperation : request.operation? = some .createWorkflow)
    (hcreated : (app.serve (app.handleAll events { world := { services, series } }) request).1.map
      (·.status) = some 201) :
    let s := app.handleAll events { world := { services, series } }
    ∃ w, request.json (decodeWorkflowRequest s.world.now) = .ok w ∧
      ∀ later : List Event, (∀ event ∈ later, ¬event.Touches w.id) →
      let t := app.handleAll later (app.serve s request).2
      (w.id ≠ "validate" → app.Serves t (percentEncode w.id) w) ∧
      (w.id = "validate" → app.Shut t (percentEncode w.id)) ∧
      ∀ name, Spells name w.id → name ≠ "validate" → app.Serves t name w := by
  intro s
  have hup : s.Upkept app.engine fun _ => True := app.upkept_reachable services series events
  obtain ⟨w, hread⟩ := app.read_of_created hoperation hcreated
  have hplaced := (app.serve_post hoperation hread).2 hcreated
  refine ⟨w, hread, ?_⟩
  intro later hlater t
  have hstays : t.world.registry.get? w.id = some w :=
    app.found_later hup (fun r => r.get? w.id = some w) request hplaced
      fun event hevent => Event.spares_found (hlater event hevent)
  have hup' : t.Upkept app.engine fun _ => True := by
    have hall := app.upkept_reachable services series (events ++ .request request :: later)
    rw [handleAll, List.foldl_append] at hall
    exact hall
  have hserves : ∀ name, Spells name w.id → name ≠ "validate" → app.Serves t name w :=
    fun name hspells hname => app.serves_of_get? hup' hspells hname hstays
  refine ⟨fun hne => hserves _ (spells_percentEncode w.id) (mt percentEncode_eq_validate.mp hne),
    fun heq => ?_, hserves⟩
  rw [percentEncode_eq_validate.mpr heq]
  exact app.shut_validate

/-- A request to create a workflow of one node. -/
def creation (id : String) : Request where
  method := "POST"
  target := "/api/workflows"
  contentType := some "application/json"
  body := "\x7b\"workflow\":\x7b\"id\":\"" ++ id ++ "\",\"name\":\"n\",\"nodes\":" ++
    "[\x7b\"id\":\"a\",\"type\":\"trigger\"\x7d]\x7d\x7d"

/-- A valid workflow of the id is read from its body. -/
theorem creation_read {id : String} (hid : id = "validate" ∨ id = "made") :
    ∃ w, (creation id).json (decodeWorkflowRequest 0) = .ok w ∧ w.id = id ∧ w.isValid = true := by
  have hread : ((readJson (decodeWorkflowRequest 0) (creation id).body).toOption.map fun w =>
      (w.id, w.isValid)) = some (id, true) := by
    rcases hid with rfl | rfl <;> decide +kernel
  have htype : isJsonType "application/json" = true := by
    have hname : isNameChar =
        fun c => c.isAlphanum || decide (c ∈ "!#$%&'*+-.^_\x60|~".toList) :=
      funext fun c => by rw [isNameChar, String.contains_char_eq]
    unfold isJsonType
    rw [hname]
    decide +kernel
  have hcontent : (creation id).content = .ok (creation id).body := by
    rcases hid with rfl | rfl <;> exact if_pos (by decide +kernel)
  have hjson : (creation id).json (decodeWorkflowRequest 0) =
      readJson (decodeWorkflowRequest 0) (creation id).body := by
    rw [Request.json, hcontent]
    exact if_pos htype
  cases hw : readJson (decodeWorkflowRequest 0) (creation id).body with
  | error e =>
    rw [hw] at hread
    cases hread
  | ok w =>
    rw [hw] at hread hjson
    obtain ⟨rfl, hvalid⟩ := Prod.mk.inj (Option.some.inj hread)
    exact ⟨w, hjson, rfl, hvalid⟩

/-- It is acknowledged by a server that nothing was asked of yet. -/
theorem creation_created {id : String} (hid : id = "validate" ∨ id = "made") :
    (creation id).operation? = some .createWorkflow ∧
    (usual.serve {} (creation id)).1.map (·.status) = some 201 ∧
    ∃ w, (creation id).json (decodeWorkflowRequest 0) = .ok w ∧ w.id = id := by
  have hoperation : (creation id).operation? = some .createWorkflow := by
    rcases hid with rfl | rfl <;> decide +kernel
  obtain ⟨w, hread, rfl, hvalid⟩ := creation_read hid
  refine ⟨hoperation, (usual.serve_post (s := {}) hoperation hread).1.mpr ⟨?_, hvalid, rfl⟩,
    w, hread, rfl⟩
  rcases hid with heq | heq <;> rw [heq] <;> decide

/-- A workflow is created, and served some time later. -/
theorem made_served :
    (creation "made").operation? = some .createWorkflow ∧
    (usual.serve {} (creation "made")).1.map (·.status) = some 201 ∧
    ∃ w, w.id = "made" ∧ usual.Serves
      (usual.handleAll [.pass 5] (usual.serve {} (creation "made")).2) (percentEncode w.id) w := by
  obtain ⟨hoperation, hcreated, w, hread, hid⟩ := creation_created (.inr rfl)
  obtain ⟨w', hread', hserved⟩ :=
    usual.created_served {} ({} : World).series [] (creation "made") hoperation hcreated
  have heq : w' = w := Except.ok.inj (hread'.symm.trans hread)
  rw [heq] at hserved
  have hspared : ∀ event ∈ [Event.pass 5], ¬event.Touches w.id := by simp [Event.Touches]
  have hne : w.id ≠ "validate" := by
    rw [hid]
    decide
  exact ⟨hoperation, hcreated, w, hid, (hserved [.pass 5] hspared).1 hne⟩

/-- A workflow of the id `validate` is created and not served. -/
theorem not_always_served :
    ¬∀ (app : App) (services : Services) (series : Series) (events : List Event)
      (request : Request), request.operation? = some .createWorkflow →
      (app.serve (app.handleAll events { world := { services, series } }) request).1.map
        (·.status) = some 201 →
      let s := app.handleAll events { world := { services, series } }
      ∃ w, request.json (decodeWorkflowRequest s.world.now) = .ok w ∧
        app.Serves (app.serve s request).2 (percentEncode w.id) w := by
  intro hall
  obtain ⟨hoperation, hcreated, w, hread, hid⟩ := creation_created (.inl rfl)
  obtain ⟨w', hread', hserves⟩ :=
    hall usual {} ({} : World).series [] (creation "validate") hoperation hcreated
  have heq : w' = w := Except.ok.inj (hread'.symm.trans hread)
  rw [heq, hid, percentEncode_eq_validate.mpr rfl] at hserves
  have hshut := usual.shut_validate (s := (usual.serve (usual.handleAll [] {})
    (creation "validate")).2) "GET" List.mem_cons_self none ""
  rw [hserves.found none ""] at hshut
  cases hshut

end App

end Automation.Http
