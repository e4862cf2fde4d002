/-
Automation.Proofs.Http.UpkeepTheorems — what a server keeps up.

Three handlers write the registry, each with guards of its own, and two set
runs off; but whatever comes in which order, the registry stays sound, and
every record in the store comes from an admissible workflow
(`World.Upkept`). All handlers are checked once, against this invariant and
anything else that is `held` of the registry and that the request spares:
each of them goes like itself from worlds that have it.

`registered_and_started_soundly` says what this means for clients. The dates
of creation are the other thing that is held: they stay as long as nobody
asks to delete the id.
-/
import Automation.Proofs.Engine.OriginTheorems
import Automation.Proofs.Engine.TandemTheorems
import Automation.Proofs.Http.ServerTheorems

namespace Automation

open Process
open Automation.Time (Timestamp)

/-- The registry is sound and as it is held to be, and every record comes from
an admissible workflow. -/
structure World.Upkept (e : Engine) (held : Registry → Prop) (s : World) : Prop where
  registry : s.registry.Sound
  held : held s.registry
  runs : s.store.Admits e

namespace World.Upkept

variable {e : Engine} {held : Registry → Prop} {s s' : World} {w : Workflow} {r : Run}

/-- It is about the registry and the store alone. -/
theorem congr (h : s.Upkept e held) (hregistry : s'.registry = s.registry)
    (hstore : s'.store = s.store) : s'.Upkept e held :=
  ⟨hregistry ▸ h.registry, hregistry ▸ h.held, hstore ▸ h.runs⟩

theorem addRun (h : s.Upkept e held) (hw : w.Admissible) (hr : r.StartedFrom e w) :
    (s.addRun r).2.Upkept e held :=
  ⟨h.registry, h.held, h.runs.register hw hr⟩

theorem saveRun (h : s.Upkept e held) (hw : w.Admissible) (hr : r.StartedFrom e w) :
    (s.saveRun r).2.Upkept e held ∧ (s.saveRun r).1.StartedFrom e w :=
  ⟨⟨h.registry, h.held, (h.runs.save hw hr).1⟩, (h.runs.save hw hr).2⟩

theorem cancelRun (h : s.Upkept e held) (id : String) : (s.cancelRun id).2.Upkept e held :=
  ⟨h.registry, h.held, h.runs.cancel id s.now⟩

end World.Upkept

/-- A process keeps up the world, whatever others do that keep it up, too; its
results are as said. -/
def Process.Upkeeps {α : Type} (e : Engine) (held : Registry → Prop) (post : α → Prop)
    (p : Process World α) : Prop :=
  p.Alike (.self (World.Upkept e held) fun _ s' => s'.Upkept e held)
    (fun a b => a = b ∧ post a) p

section

variable {α β : Type} {e : Engine} {held : Registry → Prop} {post : α → Prop} {w : Workflow}

theorem Process.Upkeeps.bind {post' : β → Prop} {p : Process World α} {k : α → Process World β}
    (hp : p.Upkeeps e held post) (hk : ∀ a, post a → (k a).Upkeeps e held post') :
    (p >>= k).Upkeeps e held post' := by
  refine Alike.bind ?_ hp
  rintro a _ ⟨rfl, ha⟩
  exact hk a ha

theorem Process.upkeeps_done {a : α} (h : post a) : (done a).Upkeeps e held post := ⟨rfl, h⟩

/-- Looking at the world, and going on by what is seen of an upkept one. -/
theorem Process.upkeeps_read_bind {f : World → β} {k : β → Process World α}
    (h : ∀ s, s.Upkept e held → (k (f s)).Upkeeps e held post) :
    (read f >>= k).Upkeeps e held post := by
  rintro s _ ⟨rfl, hs⟩
  exact ⟨⟨rfl, hs⟩, h s hs⟩

theorem Process.upkeeps_readLocked_bind {f : World → β} {k : β → Process World α}
    (h : ∀ s, s.Upkept e held → (k (f s)).Upkeeps e held post) :
    (readLocked f >>= k).Upkeeps e held post := by
  rintro s _ ⟨rfl, hs⟩
  exact ⟨⟨rfl, hs⟩, h s hs⟩

theorem Process.upkeeps_step_bind {f : World → β × World} {k : β → Process World α}
    (h : ∀ s, s.Upkept e held → (f s).2.Upkept e held ∧ (k (f s).1).Upkeeps e held post) :
    (step f >>= k).Upkeeps e held post := by
  rintro s _ ⟨rfl, hs⟩
  exact ⟨⟨rfl, (h s hs).1⟩, (h s hs).2⟩

theorem Process.upkeeps_stepLocked_bind {f : World → β × World} {k : β → Process World α}
    (h : ∀ s, s.Upkept e held → (f s).2.Upkept e held ∧ (k (f s).1).Upkeeps e held post) :
    (stepLocked f >>= k).Upkeeps e held post := by
  rintro s _ ⟨rfl, hs⟩
  exact ⟨⟨rfl, (h s hs).1⟩, (h s hs).2⟩

/-! ## Runs -/

/-- Runs of admissible workflows are set off. -/
theorem Engine.upkeeps_prepare (hw : w.Admissible) (payload : Json.Value) (options : RunOptions) :
    (e.prepare w payload options).Upkeeps e held fun r => r.1.StartedFrom e w := by
  unfold prepare
  refine upkeeps_read_bind fun s _ => upkeeps_read_bind fun s' _ => ?_
  have hrun := Run.StartedFrom.start (e := e) w s'.nextRun payload options s.now
  refine upkeeps_stepLocked_bind fun s'' hs'' => ⟨hs''.addRun hw hrun, ?_⟩
  rw [if_pos hw.isValid]
  exact upkeeps_done hrun

/-- What is kept up while a run is driven; the registry is not touched at all. -/
theorem Engine.alike_drive_upkept (held : Registry → Prop) (hw : w.Admissible) {run : Run}
    (hrun : run.StartedFrom e w) (token : Nat) : (e.drive w run token).Alike
      (.self (World.Upkept e held) fun s s' => s'.Upkept e held ∧ s'.registry = s.registry)
      (fun r r' => r = r' ∧ r.StartedFrom e w) (e.drive w run token) := by
  refine Engine.alike_drive_self ?_ ?_ ?_ ?_ e token hrun
  · exact fun s hs => ⟨hs, rfl⟩
  · exact fun s r hs hr => ⟨⟨(hs.saveRun hw hr).1, rfl⟩, (hs.saveRun hw hr).2⟩
  · exact fun s services hs => ⟨hs.congr rfl rfl, rfl⟩
  · exact fun r r' hr h => hr.advances h

theorem Engine.upkeeps_execute (hw : w.Admissible) (payload : Json.Value) (options : RunOptions) :
    (e.execute w payload options).Upkeeps e held fun r => r.StartedFrom e w := by
  refine (Engine.upkeeps_prepare hw payload options).bind ?_
  rintro ⟨run, token⟩ hrun
  refine Alike.restrict ?_ ?_ ?_ (Engine.alike_drive_upkept held hw hrun token)
  · exact fun _ _ hs => hs
  · exact fun _ _ _ _ _ h => ⟨h.1, h.2.1⟩
  · exact fun _ _ h => h

end

/-! ## Schedules -/

/-- The world is kept up, by the jobs as well; they do not touch the registry. -/
def Schedule.Upkept (e : Engine) (held : Registry → Prop) (s : Schedule) : Prop :=
  s.Alike (.self (World.Upkept e held) fun s s' => s'.Upkept e held ∧ s'.registry = s.registry)
    (fun _ => Eq) s

section

variable {α : Type} {e : Engine} {held : Registry → Prop} {post : α → Prop} {s : Schedule}

theorem Schedule.Upkept.serve (h : s.Upkept e held) (stops : Nat) {p : Process World α}
    (hp : p.Upkeeps e held post) :
    (s.serve stops p).2.Upkept e held ∧ ∀ a, (s.serve stops p).1 = some a → post a := by
  have hworldly : (Likeness.self (World.Upkept e held) fun s s' =>
      s'.Upkept e held ∧ s'.registry = s.registry).Worldly fun _ => Eq :=
    Likeness.self_worldly (fun _ _ _ h => h.1) (fun _ _ hs => hs.congr rfl rfl)
      fun _ _ _ hs => hs.congr rfl rfl
  have hsteps : ∀ {s t s' t' : World}, s = t ∧ s.Upkept e held → s' = t' ∧ s'.Upkept e held →
      s' = t' ∧ s'.Upkept e held := fun _ h => h
  obtain ⟨hanswers, hserved⟩ := Schedule.Alike.serve hworldly hsteps h stops hp
  refine ⟨hserved, fun a ha => ?_⟩
  rw [ha] at hanswers
  cases hanswers with
  | some hpost => exact hpost.2

/-- A run of an admissible workflow is put into the background. -/
theorem Schedule.Upkept.background (h : s.Upkept e held) {w : Workflow} (hw : w.Admissible)
    {run : Run} (hrun : run.StartedFrom e w) (token : Nat) :
    (s.background e w run token).Upkept e held := by
  have hleft : (s.world.leaveRun run.id).Upkept e held := h.world.2.congr rfl rfl
  refine Schedule.Alike.addJob h ⟨rfl, hleft⟩ ⟨rfl, rfl, rfl, ?_⟩
  exact (Engine.alike_drive_upkept held hw hrun token).mono fun _ _ hr => hr.1

/-- What else the registry is held to be can change, as the jobs do not touch
the registry. -/
theorem Schedule.Upkept.holding (h : s.Upkept e fun _ => True) (hheld : held s.world.registry) :
    s.Upkept e held := by
  refine h.restrict ⟨rfl, h.world.2.registry, hheld, h.world.2.runs⟩ ?_ ?_ fun _ _ hw => hw
  · rintro s t ⟨hst, hs⟩
    exact ⟨hst, hs.registry, trivial, hs.runs⟩
  · rintro s t s' t' ⟨-, hs⟩ ⟨hst', hs', hregistry⟩
    exact ⟨hst', ⟨hs'.registry, hregistry ▸ hs.held, hs'.runs⟩, hregistry⟩

end

namespace Http

variable {held : Registry → Prop}

/-- A run that is left to the background was started from its workflow, which
is admissible. -/
def Reply.Upkept (e : Engine) (reply : Reply) : Prop :=
  ∀ c, reply.continuation = some c → c.workflow.Admissible ∧ c.run.StartedFrom e c.workflow

namespace App

variable (app : App)

theorem upkeeps_reply {e : Engine} {response : Response} :
    (pure { response } : Answer).Upkeeps e held (Reply.Upkept e) :=
  upkeeps_done fun _ h => by cases h

theorem upkeeps_reading {e : Engine} {α : Type} {result : Except Rejection α} {next : α → Answer}
    (h : ∀ a, result = .ok a → (next a).Upkeeps e held (Reply.Upkept e)) :
    (reading result next).Upkeeps e held (Reply.Upkept e) := by
  cases result with
  | error _ => exact upkeeps_reply
  | ok a => exact h a rfl

theorem upkeeps_finished (run : Run) :
    (app.finished run).Upkeeps app.engine held (Reply.Upkept app.engine) :=
  upkeeps_reply

/-! ## Handlers -/

/-- What is created is valid and has an id. -/
theorem upkeeps_createWorkflow {e : Engine} {w : Workflow}
    (hput : ∀ r now, held r → r.get? w.id = none → held (r.put now w)) :
    (createWorkflow w).Upkeeps e held (Reply.Upkept e) := by
  unfold createWorkflow
  split
  · exact upkeeps_reply
  · next hid =>
    refine upkeeps_step_bind fun s hs => ?_
    cases hcreate : s.registry.create (.reading s.now) w with
    | error _ => exact ⟨hs, upkeeps_reply⟩
    | ok created =>
      obtain ⟨report, registry⟩ := created
      obtain ⟨hvalid, ⟨rfl, rfl⟩ | ⟨hfree, rfl, rfl⟩⟩ := Registry.create_eq_ok hcreate
      · exact ⟨hs, upkeeps_reply⟩
      · have hw : w.Admissible := ⟨hvalid, by simpa using hid⟩
        exact ⟨⟨hs.registry.put hw, hput _ _ hs.held hfree, hs.runs⟩, upkeeps_reply⟩

/-- What replaces a workflow gets its id, which is not blank. -/
theorem upkeeps_updateWorkflow {e : Engine} {id : String} (w : Workflow)
    (hput : ∀ known, held known → known.get? id ≠ none →
      ∀ r now v, held r → v.id = id → held (r.put now v)) :
    (updateWorkflow id w).Upkeeps e held (Reply.Upkept e) := by
  refine upkeeps_read_bind fun s hs => ?_
  cases hfound : s.registry.get? id with
  | none => exact upkeeps_reply
  | some old =>
    obtain ⟨hmem, rfl⟩ := Registry.get?_mem hfound
    have hid := (hs.registry.admissible old hmem).id
    refine upkeeps_step_bind fun s₁ hs₁ => ?_
    cases hregister : s₁.registry.register (.reading s₁.now) { w with id := old.id } with
    | error _ => exact ⟨hs₁, upkeeps_reply⟩
    | ok registered =>
      obtain ⟨report, registry⟩ := registered
      obtain ⟨hvalid, rfl⟩ := Registry.register_eq_ok hregister
      have hheld := hput _ hs.held (by simp [hfound]) s₁.registry (.reading s₁.now)
        { w with id := old.id } hs₁.held rfl
      exact ⟨⟨hs₁.registry.put ⟨hvalid, hid⟩, hheld, hs₁.runs⟩, upkeeps_reply⟩

theorem upkeeps_deleteWorkflow {e : Engine} {id : String}
    (hdrop : ∀ r, held r → held (r.drop id)) :
    (deleteWorkflow id).Upkeeps e held (Reply.Upkept e) := by
  refine upkeeps_read_bind fun s _ => ?_
  cases s.registry.get? id with
  | none => exact upkeeps_reply
  | some _ =>
    refine upkeeps_step_bind fun s₁ hs₁ => ⟨?_, upkeeps_reply⟩
    exact ⟨hs₁.registry.drop id, hdrop _ hs₁.held, hs₁.runs⟩

/-- What is run was registered, so it is admissible. -/
theorem upkeeps_executeWorkflow (id : String) (request : ExecuteRequest) :
    (app.executeWorkflow id request).Upkeeps app.engine held (Reply.Upkept app.engine) := by
  refine upkeeps_read_bind fun s hs => ?_
  cases hfound : s.registry.get? id with
  | none => exact upkeeps_reply
  | some w =>
    have hw := hs.registry.admissible w (Registry.get?_mem hfound).1
    dsimp only
    split
    · refine (Engine.upkeeps_prepare hw _ _).bind ?_
      rintro ⟨run, token⟩ hrun
      refine upkeeps_done fun c hc => ?_
      obtain rfl := Option.some.inj hc
      exact ⟨hw, hrun⟩
    · exact (Engine.upkeeps_execute hw _ _).bind fun run _ => app.upkeeps_finished run

theorem upkeeps_runHook (id : String) (payload : Json.Value) :
    (app.runHook id payload).Upkeeps app.engine held (Reply.Upkept app.engine) := by
  refine upkeeps_read_bind fun s hs => ?_
  cases hfound : s.registry.get? id with
  | none => exact upkeeps_reply
  | some w =>
    have hw := hs.registry.admissible w (Registry.get?_mem hfound).1
    dsimp only
    split
    · exact (Engine.upkeeps_execute hw _ _).bind fun run _ => app.upkeeps_finished run
    · exact upkeeps_reply

theorem upkeeps_cancelRun (id : String) :
    (app.cancelRun id).Upkeeps app.engine held (Reply.Upkept app.engine) := by
  refine upkeeps_stepLocked_bind fun s hs => ⟨hs.cancelRun id, ?_⟩
  refine upkeeps_readLocked_bind fun s₁ _ => ?_
  cases (s.cancelRun id).1 <;> cases s₁.store.get? id <;> exact upkeeps_reply

end App

/-- What is held of the registry outlasts what the request may write there. -/
structure Request.Spares (r : Request) (held : Registry → Prop) : Prop where
  creation : r.operation? = some .createWorkflow →
    ∀ now w, r.json (decodeWorkflowRequest now) = .ok w →
    ∀ registry t, held registry → registry.get? w.id = none → held (registry.put t w)
  update : ∀ name id, r.operation? = some (.updateWorkflow name) → segmentName? name = some id →
    ∀ known, held known → known.get? id ≠ none →
    ∀ registry t w, held registry → w.id = id → held (registry.put t w)
  deletion : ∀ name id, r.operation? = some (.deleteWorkflow name) → segmentName? name = some id →
    ∀ registry, held registry → held (registry.drop id)

/-- What is held of the registry outlasts the event. -/
def Event.Spares (held : Registry → Prop) : Event → Prop
  | .request r => r.Spares held
  | .pass _ => True

/-- Whether a request asks to delete the workflow of this id. -/
def Request.deletes (r : Request) (id : String) : Bool :=
  match r.operation? with
  | some (.deleteWorkflow name) => segmentName? name == some id
  | _ => false

/-- Whether the workflow of this id is asked to be deleted. -/
def Event.deletes (id : String) : Event → Bool
  | .request r => r.deletes id
  | .pass _ => false

theorem readName_eq_ok {parameter name id : String} :
    readName parameter name = .ok id ↔ segmentName? name = some id := by
  unfold readName
  split <;> simp_all

/-- What outlasts everything that is put, and the deletions that are asked
for. -/
theorem Event.spares (event : Event)
    (hput : ∀ (r : Registry) (now : Timestamp) (w : Workflow), held r → held (r.put now w))
    (hspared : ∀ id, event.deletes id = true → ∀ r, held r → held (r.drop id)) :
    event.Spares held := by
  cases event with
  | pass _ => trivial
  | request r =>
    refine ⟨fun _ _ w _ r t hr _ => hput r t w hr,
      fun _ _ _ _ _ _ _ r t w hr _ => hput r t w hr, ?_⟩
    intro name id hoperation hname
    refine hspared id ?_
    simp [Event.deletes, Request.deletes, hoperation, hname]

namespace App

variable (app : App)

/-- Every operation keeps the world up, if the request for it spares what is
held. -/
theorem upkeeps_perform {request : Request} (h : request.Spares held) (address : Address)
    {operation : Operation} (hoperation : request.operation? = some operation) :
    (app.perform request address operation).Upkeeps app.engine held (Reply.Upkept app.engine) := by
  cases operation with
  | health => exact upkeeps_reply
  | listWorkflows => exact upkeeps_read_bind fun s _ => upkeeps_reply
  | createWorkflow =>
    exact upkeeps_read_bind fun s _ => upkeeps_reading fun w hw =>
      upkeeps_createWorkflow (h.creation hoperation s.now w hw)
  | validateWorkflow =>
    exact upkeeps_read_bind fun s _ => upkeeps_reading fun w _ => upkeeps_reply
  | getWorkflow name =>
    refine upkeeps_reading fun id _ => upkeeps_read_bind fun s _ => ?_
    cases s.registry.get? id <;> exact upkeeps_reply
  | updateWorkflow name =>
    refine upkeeps_reading fun id hid => upkeeps_read_bind fun s _ => ?_
    exact upkeeps_reading fun w _ =>
      upkeeps_updateWorkflow w (h.update name id hoperation (readName_eq_ok.mp hid))
  | deleteWorkflow name =>
    exact upkeeps_reading fun id hid =>
      upkeeps_deleteWorkflow (h.deletion name id hoperation (readName_eq_ok.mp hid))
  | executeWorkflow name =>
    exact upkeeps_reading fun id _ => upkeeps_reading fun r _ => app.upkeeps_executeWorkflow id r
  | listRuns =>
    exact upkeeps_reading fun id _ => upkeeps_readLocked_bind fun s _ => upkeeps_reply
  | getRun name =>
    refine upkeeps_reading fun id _ => upkeeps_readLocked_bind fun s _ => ?_
    cases s.store.get? id <;> exact upkeeps_reply
  | cancelRun name => exact upkeeps_reading fun id _ => app.upkeeps_cancelRun id
  | runHook name =>
    exact upkeeps_reading fun id _ => upkeeps_reading fun v _ => app.upkeeps_runHook id v

theorem upkeeps_answer {request : Request} (h : request.Spares held) :
    (app.answer request).Upkeeps app.engine held (Reply.Upkept app.engine) := by
  rw [answer_eq]
  suffices hreply : (app.respond request).Upkeeps app.engine held (Reply.Upkept app.engine) by
    refine hreply.bind fun reply hreply => upkeeps_done ?_
    unfold Reply.Upkept
    rw [sent_continuation]
    exact hreply
  unfold respond
  cases hoperation : request.operation? with
  | none =>
    cases Route.ofSegments? (Address.ofText request.target).segments <;> exact upkeeps_reply
  | some operation => exact app.upkeeps_perform h _ hoperation

/-- Whatever happens keeps the world up, if it spares what is held. -/
theorem upkept_handle {s : Schedule} (h : s.Upkept app.engine held) {event : Event}
    (hspares : event.Spares held) : (app.handle s event).Upkept app.engine held := by
  cases event with
  | pass ms =>
    have hpause : (Process.pause { due := .instant (s.world.now + Time.slept ms) } :
        Process World Wake).Upkeeps app.engine held fun _ => True := ⟨rfl, fun _ => ⟨rfl, trivial⟩⟩
    exact (h.serve 1 hpause).1
  | request r =>
    obtain ⟨hserved, hreply⟩ := h.serve (stops s) (app.upkeeps_answer hspares)
    unfold handle
    dsimp only
    rw [serve_eq]
    generalize s.serve (stops s) (app.answer r) = served at hserved hreply
    obtain ⟨reply?, t⟩ := served
    cases hc : reply?.bind (·.continuation) with
    | none => exact hserved
    | some c =>
      obtain ⟨reply, hreply', hc'⟩ := Option.bind_eq_some_iff.mp hc
      obtain ⟨hw, hrun⟩ := hreply reply hreply' c hc'
      exact Schedule.Upkept.background hserved hw hrun c.token

theorem upkept_of_spares (events : List Event) : ∀ {s : Schedule}, s.Upkept app.engine held →
    (∀ event ∈ events, event.Spares held) → (app.handleAll events s).Upkept app.engine held := by
  induction events with
  | nil => exact fun h _ => h
  | cons event events ih =>
    intro s h hspares
    have hhandled := app.upkept_handle h (hspares event List.mem_cons_self)
    exact ih hhandled fun later hlater => hspares later (List.mem_cons_of_mem _ hlater)

theorem upkept_handleAll
    (hput : ∀ (r : Registry) (now : Timestamp) (w : Workflow), held r → held (r.put now w))
    (events : List Event) {s : Schedule} (h : s.Upkept app.engine held)
    (hspared : ∀ event ∈ events, ∀ id, event.deletes id = true → ∀ r, held r → held (r.drop id)) :
    (app.handleAll events s).Upkept app.engine held :=
  app.upkept_of_spares events h fun event hevent => event.spares hput (hspared event hevent)

/-- Whatever happens from an empty registry and store on, the world is kept up. -/
theorem upkept_reachable (services : Services) (series : Series) (events : List Event) :
    (app.handleAll events { world := { services, series } }).Upkept app.engine fun _ => True := by
  have hstart : Schedule.Upkept app.engine (fun _ => True) { world := { services, series } } := by
    refine ⟨⟨rfl, ⟨?_, ?_⟩, trivial, ?_⟩, rfl, rfl, .nil, .nil, .nil, .nil⟩
    · exact fun w hw => by cases hw
    · exact .nil
    · exact fun entry hentry => by cases hentry
  exact app.upkept_handleAll (fun _ _ _ _ => trivial) events hstart fun _ _ _ _ _ _ => trivial

/-- **What a server keeps up.** Requests come and time passes in any order,
from an empty registry and store on. Then every registered workflow is valid,
has an id that is not blank and is found under it; the date of creation of an
id stays until the id is asked to be deleted; and every record in the store
comes from a workflow that is valid, and has no error that says that it was
not. -/
theorem registered_and_started_soundly (services : Services) (series : Series)
    (events : List Event) :
    let s := app.handleAll events { world := { services, series } }
    (∀ w ∈ s.world.registry.workflows, w.validate.valid = true ∧ Text.isAllBlank w.id = false ∧
      s.world.registry.get? w.id = some w) ∧
    (∀ id w, s.world.registry.get? id = some w → ∀ later : List Event,
      (∀ event ∈ later, event.deletes id = false) →
      ∃ w', (app.handleAll later s).world.registry.get? id = some w' ∧
        w'.createdAt = w.createdAt) ∧
    ∀ entry ∈ s.world.store.entries, ∃ w : Workflow, w.validate.valid = true ∧
      Text.isAllBlank w.id = false ∧ entry.run.StartedFrom app.engine w ∧ entry.run.IsOf w ∧
      ∀ rest, entry.run.error ≠ some ("Workflow validation failed" ++ rest) := by
  have hs := app.upkept_reachable services series events
  generalize app.handleAll events { world := { services, series } } = s at hs
  refine ⟨fun w hw => ?_, fun id w hw later hlater => ?_, fun entry hentry => ?_⟩
  · have hadmissible := hs.world.2.registry.admissible w hw
    exact ⟨hadmissible.isValid, hadmissible.id, hs.world.2.registry.get? hw⟩
  · have hheld : s.Upkept app.engine (·.Dates id w.createdAt) := hs.holding ⟨w, hw, rfl⟩
    refine (app.upkept_handleAll (fun r now w h => h.put) later hheld ?_).world.2.held
    intro event hevent id' hdeletes r hr
    refine hr.drop_ne fun heq => ?_
    rw [heq, hlater event hevent] at hdeletes
    cases hdeletes
  · obtain ⟨w, hw, hrun⟩ := hs.world.2.runs entry hentry
    exact ⟨w, hw.isValid, hw.id, hrun, hrun.isOf, hrun.isOf.notRefused⟩

end App

end Http

end Automation
