/-
Automation.Proofs.Node.ExecutorTheorems — what the executors call, and what
they tell of it.

An executor makes at most one call, and it makes it at once. If the call is
a deed, the attempt does not wait but answers, and its answer tells the
deed: the type of the node, the value and the references to tasks are those
of the deed (`Output.Tells`). If there is no deed, the attempt answers for a
node of another type and refers to no task, or it does not answer.

`Executors.builtin_accounted` says so of the executors of all node types.
-/
import Automation.Node.Executor
import Automation.Proofs.Services.CallTheorems

namespace Automation

open Automation.Json (Value)
open Automation.Time (Timestamp Face)

/-! ## Telling deeds -/

/-- Whether nodes of this type are there for deeds. -/
def NodeType.acts : NodeType → Bool
  | .taskCreate | .taskUpdate | .notification => true
  | _ => false

namespace Deed

/-- The type of the nodes that do this. -/
def type : Deed → NodeType
  | .task .created _ => .taskCreate
  | .task .updated _ => .taskUpdate
  | .sent _ _ => .notification

/-- What a node gives out that has done this. -/
def value (face : Face) : Deed → Value
  | .task .created record =>
    .ofFields [("taskId", .string record.id), ("task", record.toJson face)]
  | .task .updated record =>
    .ofFields [("taskId", .string record.id), ("updated", .bool true), ("task", record.toJson face)]
  | .sent notification receipt => .ofFields [
    ("sent", .bool true),
    ("notificationId", .string receipt.id),
    ("type", .string notification.channel),
    ("recipients", .ofTexts notification.recipients),
    ("message", .string notification.message),
    ("sentAt", receipt.sentAt.toJson face)]

/-- What the context keeps of this, if a node has done it. -/
def references (face : Face) (nodeId : String) : Deed → List TaskReference
  | .task action record => [{
    taskId := record.id
    action
    status := record.status
    snapshot := record.toJson face
    nodeId }]
  | .sent _ _ => []

theorem type_acts (deed : Deed) : deed.type.acts = true := by
  cases deed with
  | task action record => cases action <;> rfl
  | sent notification receipt => rfl

end Deed

/-- What a node gives to the run tells its deed, if it has done one. -/
inductive Output.Tells (face : Face) (node : Node) (output : Output) : Option Deed → Prop where
  | deed {deed : Deed} : node.type = deed.type → output.value = deed.value face →
    output.tasks = deed.references face node.id → Tells face node output (some deed)
  | nothing : node.type.acts = false → output.tasks = [] → Tells face node output none

/-- An attempt tells the deed that is done at its beginning, if one is: then
it answers at once. -/
structure Attempt.Tells (face : Face) (node : Node) (attempt : Attempt) (deed? : Option Deed) :
    Prop where
  answer : ∀ finish output, attempt.finish = some finish → finish.ending = .answer output →
    output.Tells face node deed?
  prompt : deed?.isSome = true → ∃ output, attempt.finish = some { ending := .answer output }

/-- The beginning of an attempt, and the collaborators then: it has called
none of them, or one, and it tells what was done. -/
inductive Accounted (face : Face) (node : Node) (now : Nat) (services : Services) :
    Attempt × Services → Prop where
  | idle {attempt : Attempt} : attempt.Tells face node none →
    Accounted face node now services (attempt, services)
  | called {attempt : Attempt} (call : Call) :
    attempt.Tells face node (Called.mk call now services).deed? →
    Accounted face node now services (attempt, (Called.mk call now services).after)

section

variable {face : Face} {node : Node} {around : Surroundings} {services : Services}

/-! ## Kinds of attempts -/

theorem Attempt.failed_tells (e : NodeError) : (failed e).Tells face node none where
  answer finish output hfinish hending := by
    cases hfinish
    cases hending
  prompt h := by cases h

theorem Attempt.succeeded_tells {note : Note} {output : Output} {deed? : Option Deed}
    (h : output.Tells face node deed?) : (succeeded note output).Tells face node deed? where
  answer finish output' hfinish hending := by
    cases hfinish
    cases hending
    exact h
  prompt _ := ⟨output, rfl⟩

theorem Attempt.Tells.booked {attempt : Attempt} {deed? : Option Deed}
    (h : attempt.Tells face node deed?) : attempt.booked.Tells face node deed? :=
  ⟨h.answer, h.prompt⟩

/-- An attempt that ends as a call does which is no deed. -/
theorem Attempt.ofCall_tells {α : Type} (opening : List Note) (call : Behaviour α)
    {finish : Ending α → List Note × Ending Output} (hacts : node.type.acts = false)
    (hfinish : ∀ ending output, (finish ending).2 = .answer output → output.tasks = []) :
    (ofCall opening call finish).Tells face node none where
  answer last output hlast hending := by
    unfold ofCall at hlast
    cases call with
    | hangs => cases hlast
    | ends lasts ending =>
      cases hlast
      exact .nothing hacts (hfinish ending output hending)
  prompt h := by cases h

/-- An attempt after a call of which the result is known. -/
theorem Accounted.of_result {call : Call} {now : Nat} {deed? : Option Deed} {after : Services}
    {attempt : Attempt} (hresult : (Called.mk call now services).result = (deed?, after))
    (htells : attempt.Tells face node deed?) :
    Accounted face node now services (attempt, after) := by
  have hdeed : (Called.mk call now services).deed? = deed? := congrArg Prod.fst hresult
  have hafter : (Called.mk call now services).after = after := congrArg Prod.snd hresult
  rw [← hafter]
  exact .called call (hdeed ▸ htells)

/-- Work that is done at once and calls nobody. -/
theorem Executor.immediate_accounted
    {work : Node → Surroundings → Except NodeError (Note × Output)}
    (hacts : node.type.acts = false)
    (hwork : ∀ note output, work node around = .ok (note, output) → output.tasks = []) :
    Accounted face node around.now services (immediate work node around services) := by
  unfold immediate
  split
  · next note output hok =>
    exact .idle (Attempt.succeeded_tells (.nothing hacts (hwork note output hok)))
  · exact .idle (Attempt.failed_tells _)

/-- Work that is done if the data of the node can be read. -/
theorem Executor.prepared_accounted {α : Type} {prepare : Node → Surroundings → Except NodeError α}
    {work : Node → Surroundings → α → Services → Attempt × Services}
    (hwork : ∀ a, Accounted face node around.now services (work node around a services)) :
    Accounted face node around.now services (prepared prepare work node around services) := by
  unfold prepared
  split
  · exact hwork _
  · exact .idle (Attempt.failed_tells _)

/-! ## Executors -/

namespace Executor

theorem condition_accounted (h : node.type = .condition) :
    Accounted face node around.now services (condition node around services) := by
  refine immediate_accounted (by rw [h]; rfl) ?_
  intro note output hok
  simp only [bind, Except.bind] at hok
  split at hok
  · cases hok
  · split at hok
    · cases hok
    · cases hok
      rfl

theorem branch_accounted (h : node.type = .branch) :
    Accounted face node around.now services (branch node around services) := by
  refine immediate_accounted (by rw [h]; rfl) ?_
  intro note output hok
  simp only [bind, Except.bind] at hok
  split at hok
  · cases hok
  · split at hok
    · cases hok
    · split at hok
      · cases hok
      · cases hok
        rfl

theorem delay_accounted (h : node.type = .delay) :
    Accounted face node around.now services (delay face node around services) := by
  refine prepared_accounted fun ms => .idle ⟨?_, fun hdeed => by cases hdeed⟩
  intro finish output hfinish hending
  cases hfinish
  cases hending
  exact .nothing (by rw [h]; rfl) rfl

theorem action_accounted (h : node.type = .action) :
    Accounted face node around.now services (action node around services) := by
  refine prepared_accounted fun config => .called (.rules config.actionType config.parameters) ?_
  refine Attempt.ofCall_tells _ _ (by rw [h]; rfl) ?_
  intro ending output hending
  cases ending <;> cases hending
  rfl

theorem webhook_accounted (config : EngineConfig) (h : node.type = .webhook) :
    Accounted face node around.now services (webhook config node around services) := by
  refine prepared_accounted fun hook => .called (.web _) ?_
  refine Attempt.ofCall_tells _ _ (by rw [h]; rfl) ?_
  intro ending output hending
  cases ending <;> cases hending <;> rfl

theorem script_accounted (config : EngineConfig) (h : node.type = .script) :
    Accounted face node around.now services (script config node around services) := by
  refine prepared_accounted fun script => .called (.scripts _) ?_
  refine Attempt.ofCall_tells _ _ (by rw [h]; rfl) ?_
  intro ending output hending
  cases ending with
  | answer outcome =>
    simp only [scriptEnd] at hending
    split at hending <;> cases hending
    rfl
  | failure message => cases hending
  | panic text => cases hending

/-- A notification that is sent is told. -/
theorem notification_accounted (h : node.type = .notification) :
    Accounted face node around.now services (notification face node around services) := by
  refine prepared_accounted fun message => ?_
  let c : Called := ⟨.notify message, around.now, services⟩
  cases hsend : services.notify message around.now with
  | mk result after =>
    cases result with
    | ok receipt =>
      have hresult : c.result = (some (.sent message receipt), after) := by
        simp only [c, Called.result, hsend]
      exact .of_result hresult (.booked (Attempt.succeeded_tells (.deed h rfl rfl)))
    | error e =>
      have hresult : c.result = (none, after) := by simp only [c, Called.result, hsend]
      exact .of_result hresult (Attempt.failed_tells _)

/-- A task that is created is told. -/
theorem taskCreate_accounted (h : node.type = .taskCreate) :
    Accounted face node around.now services (taskCreate face node around services) := by
  refine prepared_accounted fun fields => .called (.createTask fields) ?_
  exact .booked (Attempt.succeeded_tells (.deed h rfl rfl))

/-- A task that is updated is told. -/
theorem taskUpdate_accounted (h : node.type = .taskUpdate) :
    Accounted face node around.now services (taskUpdate face node around services) := by
  refine prepared_accounted fun config => ?_
  let c : Called := ⟨.updateTask config.taskId config.updates, around.now, services⟩
  dsimp only
  cases hupdate : services.updateTask config.taskId config.updates around.now with
  | mk result after =>
    cases result with
    | ok task =>
      have hresult : c.result = (some (.task .updated task), after) := by
        simp only [c, Called.result, hupdate]
      exact .of_result hresult (.booked (Attempt.succeeded_tells (.deed h rfl rfl)))
    | error e =>
      have hresult : c.result = (none, after) := by simp only [c, Called.result, hupdate]
      exact .of_result hresult (.booked (Attempt.failed_tells _))

end Executor

/-- These executors are among those of all node types under some settings. -/
def Executors.AreBuiltin (executors : Executors) (face : Face) : Prop :=
  ∃ config, ∀ type executor, executors type = some executor →
    builtin face config type = some executor

/-- **The executors of all node types** tell what they do. -/
theorem Executors.builtin_accounted {config : EngineConfig} {executor : Executor}
    (h : Executors.builtin face config node.type = some executor) :
    Accounted face node around.now services (executor node around services) := by
  cases htype : node.type with
  | trigger =>
    rw [htype] at h
    cases h
    exact Executor.immediate_accounted (by rw [htype]; rfl) fun _ _ hok => by cases hok; rfl
  | condition => rw [htype] at h; cases h; exact Executor.condition_accounted htype
  | branch => rw [htype] at h; cases h; exact Executor.branch_accounted htype
  | action => rw [htype] at h; cases h; exact Executor.action_accounted htype
  | delay => rw [htype] at h; cases h; exact Executor.delay_accounted htype
  | notification => rw [htype] at h; cases h; exact Executor.notification_accounted htype
  | taskCreate => rw [htype] at h; cases h; exact Executor.taskCreate_accounted htype
  | taskUpdate => rw [htype] at h; cases h; exact Executor.taskUpdate_accounted htype
  | webhook => rw [htype] at h; cases h; exact Executor.webhook_accounted config htype
  | script => rw [htype] at h; cases h; exact Executor.script_accounted config htype

theorem Executors.AreBuiltin.accounted {executors : Executors} {executor : Executor}
    (h : executors.AreBuiltin face) (hexecutor : executors node.type = some executor)
    (around : Surroundings) (services : Services) :
    Accounted face node around.now services (executor node around services) := by
  obtain ⟨config, hbuiltin⟩ := h
  exact builtin_accounted (hbuiltin node.type executor hexecutor)

end

end Automation
