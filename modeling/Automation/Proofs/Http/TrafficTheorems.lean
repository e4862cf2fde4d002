/-
Automation.Proofs.Http.TrafficTheorems — requests that write at the same time.

Requests to create, replace and delete workflows are answered side by side,
and their steps come in any order (`Traffic.run`). A step reads the clock,
looks an id up, or exchanges the content of the registry. What such a request
has still to do is one of a few plans (`Plan`), and a plan reads nothing but
the clock and the registry; so a traffic is followed by what it has planned
and the registry alone (`Docket`, `Traffic.Follows.run`).
-/
import Automation.Proofs.Http.ResourceTheorems
import Automation.Proofs.Workflow.DatingTheorems

namespace Automation.Http

open Process
open Automation.Decode (Agree)

/-! ## Traffic -/

/-- A step of one of some requests, and when it happens. -/
structure Move (ι : Type) where
  call : ι
  instant : Nat

/-- Requests that are being answered: what is left of each. -/
structure Traffic (ι : Type) where
  world : World
  rest : ι → App.Answer

namespace Traffic

variable {ι : Type}

/-- Nothing has been done yet. -/
def start (app : App) (world : World) (requests : ι → Request) : Traffic ι :=
  ⟨world, fun i => app.answer (requests i)⟩

/-- One of the requests takes a step; one that is answered has none to take. -/
def move [DecidableEq ι] (t : Traffic ι) (m : Move ι) : Traffic ι :=
  match t.rest m.call with
  | .act change next =>
    let world := { t.world with now := m.instant }
    ⟨change world, Function.update t.rest m.call (next world)⟩
  | _ => t

/-- The requests take steps. -/
def run [DecidableEq ι] (t : Traffic ι) (moves : List (Move ι)) : Traffic ι :=
  moves.foldl move t

/-- The status that a request is answered with, once it is. -/
def status? (t : Traffic ι) (i : ι) : Option Nat :=
  match t.rest i with
  | .done reply => some reply.response.status
  | _ => none

/-- All requests are answered. -/
def Ended (t : Traffic ι) : Prop :=
  ∀ i, (t.status? i).isSome

end Traffic

/-- The same steps, each at its own instant, with those of one request in a
row: the requests are served one after the other. -/
def inTurn {ι : Type} [DecidableEq ι] (order : List ι) (moves : List (Move ι)) : List (Move ι) :=
  order.flatMap fun i => moves.filter (·.call = i)

/-! ## Requests -/

/-- Whether a request asks for a workflow to be created, replaced or deleted. -/
def Request.writes (r : Request) : Bool :=
  match r.operation? with
  | some .createWorkflow | some (.updateWorkflow _) | some (.deleteWorkflow _) => true
  | _ => false

/-- The workflow that a request wants to be created. When its body is read
matters for the dates only. -/
def Request.offer? (r : Request) : Option Workflow :=
  match r.operation? with
  | some .createWorkflow => (r.json (decodeWorkflowRequest 0)).toOption
  | _ => none

/-- Whether a request asks to create a workflow of this id. -/
def Request.creates (r : Request) (id : String) : Bool :=
  r.offer?.any (·.id == id)

/-- **A body reads the same at any time**, but for the dates. -/
theorem Request.json_redated (r : Request) (now now' : Nat) :
    Agree Workflow.Redated (r.json (decodeWorkflowRequest now))
      (r.json (decodeWorkflowRequest now')) := by
  have hread : ∀ o, Agree Workflow.Redated (decodeWorkflowRequest now o)
      (decodeWorkflowRequest now' o) :=
    Decode.Reader.Alike.decode
      (Decode.Reader.alike_required _ (Workflow.decode_redated (.reading now) (.reading now'))) _
  have hjson : ∀ text, Agree Workflow.Redated (readJson (decodeWorkflowRequest now) text)
      (readJson (decodeWorkflowRequest now') text) := by
    intro text
    unfold readJson
    dsimp only
    have hroot := hread (Json.Document.ofText text).root
    generalize decodeWorkflowRequest now (Json.Document.ofText text).root = x,
      decodeWorkflowRequest now' (Json.Document.ofText text).root = y at hroot
    cases hroot with
    | error e => exact .error _
    | ok h =>
      dsimp only
      split
      · exact .ok h
      · exact .error _
  unfold Request.json
  split
  · cases r.content with
    | ok text => exact hjson text
    | error e => exact .error e
  · exact .error _

/-- What is read at some time was offered. -/
theorem Request.offer?_of_read {r : Request} {now : Nat} {w : Workflow}
    (hoperation : r.operation? = some .createWorkflow)
    (hread : r.json (decodeWorkflowRequest now) = .ok w) :
    ∃ v, r.offer? = some v ∧ v.id = w.id ∧ v.isValid = w.isValid := by
  have hagree := r.json_redated now 0
  rw [hread] at hagree
  unfold Request.offer?
  rw [hoperation]
  generalize r.json (decodeWorkflowRequest 0) = x at hagree ⊢
  cases hagree with
  | ok h => exact ⟨_, rfl, h.id, h.isValid⟩

/-- What was offered is read at any time. -/
theorem Request.read_of_offer? {r : Request} {w : Workflow} (h : r.offer? = some w) (now : Nat) :
    r.operation? = some .createWorkflow ∧ ∃ v, r.json (decodeWorkflowRequest now) = .ok v ∧
      v.id = w.id ∧ v.isValid = w.isValid := by
  unfold Request.offer? at h
  split at h
  · next hoperation =>
    refine ⟨hoperation, ?_⟩
    have hagree := r.json_redated 0 now
    generalize r.json (decodeWorkflowRequest 0) = x, r.json (decodeWorkflowRequest now) = y
      at h hagree ⊢
    cases hagree with
    | error _ => cases h
    | ok hagree =>
      cases h
      exact ⟨_, rfl, hagree.id, hagree.isValid⟩
  · cases h

/-! ## Plans -/

/-- An exchange of the content of the registry. -/
inductive Exchange where
  | put (w : Workflow)
  | drop (id : String)

namespace Exchange

/-- The id that the exchange is about. -/
def id : Exchange → String
  | put w => w.id
  | drop id => id

/-- The content that takes the place of another. -/
def apply (now : Nat) (r : Registry) : Exchange → Registry
  | put w => r.put (.reading now) w
  | drop id => r.drop id

/-- The exchange in the shared state. -/
def change (e : Exchange) (world : World) : World :=
  { world with registry := e.apply world.now world.registry }

end Exchange

/-- What a request that writes has still to do. -/
inductive Plan where
  /-- To read the body. -/
  | read (next : Nat → Plan)
  /-- To look whether the id is free and add the workflow, at once. -/
  | create (w : Workflow) (created used : Reply)
  /-- To look the id up, of which the answer depends and nothing else. -/
  | check (id : String) (absent present : Reply)
  /-- To look the id up, before an exchange. -/
  | look (e : Exchange) (absent present : Reply)
  | exchange (e : Exchange) (reply : Reply)
  /-- To find out what is known already. -/
  | settle (reply : Reply)
  | answered (reply : Reply)

namespace Plan

/-- What becomes of the registry and the plan in a step. -/
def step (now : Nat) (r : Registry) : Plan → Registry × Plan
  | read next => (r, next now)
  | create w created used =>
    if (r.get? w.id).isSome then (r, answered used)
    else (r.put (.reading now) w, answered created)
  | check id absent present => (r, if (r.get? id).isSome then settle present else answered absent)
  | look e absent present =>
    (r, if (r.get? e.id).isSome then exchange e present else answered absent)
  | exchange e reply => (e.apply now r, answered reply)
  | settle reply => (r, answered reply)
  | answered reply => (r, answered reply)

/-- A last step, whatever it finds. -/
def last (request : Request) (change : World → World) (reply : Reply) : App.Answer :=
  act change fun _ => done (App.sent request reply)

/-- The plan as a process; the replies are sent. -/
def process (request : Request) : Plan → App.Answer
  | read next => act (fun world => world) fun world => (next world.now).process request
  | create w created used =>
    act (fun world =>
        if (world.registry.get? w.id).isSome then world
        else { world with registry := world.registry.put (.reading world.now) w })
      fun world =>
        done (App.sent request (if (world.registry.get? w.id).isSome then used else created))
  | check id absent present =>
    act (fun world => world) fun world =>
      if (world.registry.get? id).isSome then last request (fun world => world) present
      else done (App.sent request absent)
  | look e absent present =>
    act (fun world => world) fun world =>
      if (world.registry.get? e.id).isSome then last request e.change present
      else done (App.sent request absent)
  | exchange e reply => last request e.change reply
  | settle reply => last request (fun world => world) reply
  | answered reply => done (App.sent request reply)

/-- The plan for a workflow that is to be created. -/
def creating : Except Rejection Workflow → Plan
  | .error e => answered { response := e.response }
  | .ok w =>
    if Text.isAllBlank w.id then answered { response := { status := 400 } }
    else if w.isValid then
      create w { response := ⟨201, .json (App.acknowledgement w w.validate "created")⟩ }
        { response := { status := 409 } }
    else settle { response := { status := 422 } }

/-- The plan for a workflow that is to be put under an id. -/
def replacing (id : String) : Except Rejection Workflow → Plan
  | .error e => answered { response := e.response }
  | .ok v =>
    let w := { v with id }
    if w.isValid then
      look (.put w) { response := { status := 404 } }
        { response := ⟨200, .json (App.acknowledgement w w.validate "updated")⟩ }
    else check id { response := { status := 404 } } { response := { status := 422 } }

/-- The plan for a workflow that is to be taken out. -/
def deleting (id : String) : Plan :=
  look (.drop id) { response := { status := 404 } }
    { response := ⟨200, .json (.ofFields [("message", .string "Workflow deleted successfully")])⟩ }

/-- What a request plans at first. -/
def opening (request : Request) : Plan :=
  match request.operation? with
  | some .createWorkflow => read fun now => creating (request.json (decodeWorkflowRequest now))
  | some (.updateWorkflow name) =>
    match readName "id" name with
    | .error e => answered { response := e.response }
    | .ok id => read fun now => replacing id (request.json (decodeWorkflowRequest now))
  | some (.deleteWorkflow name) =>
    match readName "id" name with
    | .error e => answered { response := e.response }
    | .ok id => deleting id
  | _ => answered { response := { status := 405 } }

end Plan

/-- Two changes of the state that go on alike. -/
theorem act_congr {σ α : Type} {change change' : σ → σ} {next next' : σ → Process σ α}
    (hchange : ∀ s, change s = change' s) (hnext : ∀ s, next s = next' s) :
    act change next = act change' next' := by
  rw [funext hchange, funext hnext]

namespace App

theorem creating_process (request : Request) (result : Except Rejection Workflow) :
    (reading result createWorkflow >>= fun reply => done (sent request reply)) =
      (Plan.creating result).process request := by
  cases result with
  | error e => rfl
  | ok w =>
    dsimp only [reading, createWorkflow, Plan.creating]
    cases Text.isAllBlank w.id with
    | true => rfl
    | false =>
      cases hvalid : w.isValid with
      | false =>
        refine act_congr (fun world => ?_) (fun world => ?_)
        · simp [Registry.create, hvalid]
        · simp [Registry.create, hvalid]
          rfl
      | true =>
        refine act_congr (fun world => ?_) (fun world => ?_)
        · cases h : (world.registry.get? w.id).isSome <;> simp [Registry.create, hvalid, h]
        · cases h : (world.registry.get? w.id).isSome <;> simp [Registry.create, hvalid, h] <;> rfl

theorem replacing_process (request : Request) (id : String) (result : Except Rejection Workflow) :
    (reading result (updateWorkflow id) >>= fun reply => done (sent request reply)) =
      (Plan.replacing id result).process request := by
  cases result with
  | error e => rfl
  | ok v =>
    dsimp only [reading, updateWorkflow, Plan.replacing]
    cases hvalid : ({ v with id } : Workflow).isValid with
    | false =>
      refine act_congr (fun _ => rfl) (fun world => ?_)
      cases h : world.registry.get? id with
      | none => simp [h]; rfl
      | some old =>
        simp only [h, Option.isSome_some, if_true]
        refine act_congr (fun world => ?_) (fun world => ?_)
        · simp [Registry.register, hvalid]
        · simp [Registry.register, hvalid]
          rfl
    | true =>
      refine act_congr (fun _ => rfl) (fun world => ?_)
      cases h : world.registry.get? id with
      | none => simp [h, Exchange.id]; rfl
      | some old =>
        simp only [h, Exchange.id, Option.isSome_some, if_true]
        refine act_congr (fun world => ?_) (fun world => ?_)
        · simp [Registry.register, hvalid, Exchange.change, Exchange.apply]
        · simp [Registry.register, hvalid]
          rfl

theorem deleting_process (request : Request) (id : String) :
    (deleteWorkflow id >>= fun reply => done (sent request reply)) =
      (Plan.deleting id).process request := by
  refine act_congr (fun _ => rfl) (fun world => ?_)
  cases h : world.registry.get? id with
  | none => simp [h, Exchange.id]; rfl
  | some old => simp [h, Exchange.id]; rfl

/-- **A request that writes follows its plan.** -/
theorem answer_eq_process (app : App) {request : Request} (h : request.writes = true) :
    app.answer request = (Plan.opening request).process request := by
  rw [answer_eq]
  unfold respond Plan.opening
  cases hoperation : request.operation? with
  | none => simp [Request.writes, hoperation] at h
  | some operation =>
    cases operation with
    | createWorkflow => exact act_congr (fun _ => rfl) fun world => creating_process request _
    | updateWorkflow name =>
      dsimp only [perform]
      cases readName "id" name with
      | error e => rfl
      | ok id => exact act_congr (fun _ => rfl) fun world => replacing_process request id _
    | deleteWorkflow name =>
      dsimp only [perform]
      cases readName "id" name with
      | error e => rfl
      | ok id => exact deleting_process request id
    | _ => simp [Request.writes, hoperation] at h

end App

namespace Plan

theorem opening_of_update {request : Request} {name id : String}
    (hoperation : request.operation? = some (.updateWorkflow name))
    (hname : segmentName? name = some id) : opening request =
      read fun now => replacing id (request.json (decodeWorkflowRequest now)) := by
  unfold opening
  rw [hoperation]
  dsimp only
  rw [readName_eq_ok.mpr hname]

theorem opening_of_delete {request : Request} {name id : String}
    (hoperation : request.operation? = some (.deleteWorkflow name))
    (hname : segmentName? name = some id) : opening request = deleting id := by
  unfold opening
  rw [hoperation]
  dsimp only
  rw [readName_eq_ok.mpr hname]

/-- A plan that is not carried out yet takes its step, and nothing but the clock
and the registry matters for it. -/
theorem process_step (x : Plan) (request : Request) :
    (∃ reply, x = answered reply) ∨
    ∃ change next, x.process request = act change next ∧ ∀ world now r, world.now = now →
      world.registry = r → (change world).registry = (x.step now r).1 ∧
      next world = (x.step now r).2.process request := by
  cases x with
  | answered reply => exact .inl ⟨reply, rfl⟩
  | create w created used =>
    refine .inr ⟨_, _, rfl, ?_⟩
    rintro world - - rfl rfl
    cases h : (world.registry.get? w.id).isSome <;> simp [step, process, h]
  | check id absent present =>
    refine .inr ⟨_, _, rfl, ?_⟩
    rintro world - - rfl rfl
    cases h : (world.registry.get? id).isSome <;> simp [step, process, h]
  | look e absent present =>
    refine .inr ⟨_, _, rfl, ?_⟩
    rintro world - - rfl rfl
    cases h : (world.registry.get? e.id).isSome <;> simp [step, process, h]
  | _ =>
    refine .inr ⟨_, _, rfl, ?_⟩
    rintro world - - rfl rfl
    exact ⟨rfl, rfl⟩

/-- The reply of a plan that is carried out. -/
def reply? : Plan → Option Reply
  | answered reply => some reply
  | _ => none

end Plan

/-! ## Dockets -/

/-- What some requests have still to do, beside the registry. -/
structure Docket (ι : Type) where
  registry : Registry
  plans : ι → Plan

namespace Docket

variable {ι : Type}

/-- Nothing has been done yet. -/
def start (registry : Registry) (requests : ι → Request) : Docket ι :=
  ⟨registry, fun i => .opening (requests i)⟩

theorem plans_start (registry : Registry) (requests : ι → Request) (i : ι) :
    (start registry requests).plans i = .opening (requests i) := rfl

variable [DecidableEq ι]

/-- One of the requests takes a step. -/
def move (d : Docket ι) (m : Move ι) : Docket ι :=
  let next := (d.plans m.call).step m.instant d.registry
  ⟨next.1, Function.update d.plans m.call next.2⟩

/-- The requests take steps. -/
def run (d : Docket ι) (moves : List (Move ι)) : Docket ι :=
  moves.foldl move d

end Docket

namespace Traffic

variable {ι : Type}

/-- The docket tells what the requests have planned, and what the registry is. -/
structure Follows (requests : ι → Request) (t : Traffic ι) (d : Docket ι) : Prop where
  registry : t.world.registry = d.registry
  rest : ∀ i, t.rest i = (d.plans i).process (requests i)

variable {requests : ι → Request} {t : Traffic ι} {d : Docket ι}

theorem follows_start (app : App) (world : World) (h : ∀ i, (requests i).writes = true) :
    (start app world requests).Follows requests (.start world.registry requests) :=
  ⟨rfl, fun i => app.answer_eq_process (h i)⟩

theorem Follows.status? (h : t.Follows requests d) (i : ι) :
    t.status? i = (d.plans i).reply?.map (·.response.status) := by
  unfold Traffic.status?
  rw [h.rest]
  cases d.plans i <;> simp [Plan.process, Plan.last, Plan.reply?]

theorem Follows.answered_of_ended (h : t.Follows requests d) (hended : t.Ended) (i : ι) :
    ∃ reply, d.plans i = .answered reply := by
  have hsome := hended i
  rw [h.status?] at hsome
  cases hplan : d.plans i with
  | answered reply => exact ⟨reply, rfl⟩
  | _ =>
    rw [hplan] at hsome
    cases hsome

/-- When all are answered, not every plan is of a kind that has no answers. -/
theorem Follows.not_forall_of_ended [Nonempty ι] (h : t.Follows requests d) (hended : t.Ended)
    {P : Plan → Prop} (hP : ∀ reply, ¬P (.answered reply)) : ¬∀ i, P (d.plans i) := by
  intro hall
  obtain ⟨i⟩ := ‹Nonempty ι›
  obtain ⟨reply, hreply⟩ := h.answered_of_ended hended i
  exact hP reply (hreply ▸ hall i)

variable [DecidableEq ι]

theorem move_of_done {m : Move ι} {reply : Reply} (h : t.rest m.call = done reply) :
    t.move m = t := by
  unfold Traffic.move
  rw [h]

theorem move_of_act {m : Move ι} {change : World → World} {next : World → App.Answer}
    (h : t.rest m.call = act change next) :
    t.move m = ⟨change { t.world with now := m.instant },
      Function.update t.rest m.call (next { t.world with now := m.instant })⟩ := by
  unfold Traffic.move
  rw [h]

theorem Follows.move (h : t.Follows requests d) (m : Move ι) :
    (t.move m).Follows requests (d.move m) := by
  have hrest := h.rest m.call
  obtain ⟨reply, heq⟩ | ⟨change, next, heq, hstep⟩ :=
    (d.plans m.call).process_step (requests m.call)
  · have hmove : d.move m = d := by
      unfold Docket.move
      rw [heq, Plan.step, ← heq]
      simp
    rw [heq] at hrest
    rwa [move_of_done hrest, hmove]
  · rw [heq] at hrest
    rw [move_of_act hrest]
    obtain ⟨hregistry, hnext⟩ := hstep { t.world with now := m.instant } _ _ rfl h.registry
    refine ⟨hregistry, fun i => ?_⟩
    by_cases hi : i = m.call
    · subst hi
      simpa [Docket.move] using hnext
    · simp [Docket.move, h.rest, hi]

/-- **A traffic goes as it is planned.** -/
theorem Follows.run (h : t.Follows requests d) (moves : List (Move ι)) :
    (t.run moves).Follows requests (d.run moves) := by
  induction moves generalizing t d with
  | nil => exact h
  | cons m rest ih => exact ih (h.move m)

end Traffic

end Automation.Http
