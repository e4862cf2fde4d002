/-
Automation.Node.Executor — how nodes are executed.

There is one executor for every type of node. Placeholders in the data of
a node are filled in first, except where the data say how the context is
to be looked at (conditions, branches), in delays and in scripts, which
get the context as their input.

A webhook never fails: what goes wrong with the call becomes part of its
output. A script fails unless it comes back in time with exit code zero.
-/
import Automation.Node.Config
import Automation.Config

namespace Automation

open Automation.Json (Value)
open Automation.Time (Timestamp Face)

namespace Executor

/-- What a node finds in its context. -/
def reading {α : Type} (result : Except UnknownRoot α) : Except NodeError α :=
  result.mapError .path

/-- An executor that does all its work at once. -/
def immediate (work : Node → Surroundings → Except NodeError (Note × Output)) : Executor :=
  fun node around services =>
    match work node around with
    | .ok (note, output) => (.succeeded note output, services)
    | .error e => (.failed e, services)

/-- An executor whose data must be read before anything happens. -/
def prepared {α : Type} (prepare : Node → Surroundings → Except NodeError α)
    (work : Node → Surroundings → α → Services → Attempt × Services) : Executor :=
  fun node around services =>
    match prepare node around with
    | .ok a => work node around a services
    | .error e => (.failed e, services)

/-- The data of a node with placeholders filled in, read by a decoder. -/
def filledIn {α : Type} (decode : Decode.Decoder α) (node : Node) (around : Surroundings) :
    Except NodeError α := do
  node.configure decode (← reading (around.context.interpolate node.data))

/-! ## Choices and waits -/

/-- A trigger has been fired already, so it only says so. -/
def trigger (face : Face) : Executor :=
  immediate fun node around => return (
    { level := .info, message := "🎯 Trigger fired: " ++ node.label },
    { value := .ofFields [
        ("triggered", .bool true),
        ("timestamp", (Timestamp.reading around.now).toJson face)] })

/-- A condition leaves by the port `true` or `false`, and by its untagged
connections if it is met. -/
def condition : Executor :=
  immediate fun node around => do
    let spec ← node.configure Condition.decode node.data
    let met ← reading (around.context.satisfies spec)
    let outcome := if met then "true" else "false"
    return (
      { level := .info
        message := "🔀 Condition evaluated to " ++ outcome ++ " (" ++
          toString spec.clauses.length ++ " clause(s), " ++ spec.logic.title ++ ")" },
      { value := .ofFields [
          ("result", .bool met), ("conditionsEvaluated", .ofNat spec.clauses.length)]
        routing := .port outcome met })

/-- The port of the first case whose value is that of the field. -/
def firstCase (context : Context) (value : Value) :
    List BranchCase → Except NodeError (Option String)
  | [] => .ok none
  | c :: rest => do
    let wanted ← reading (context.interpolate c.value)
    if looselyEqual value wanted then return some c.port else firstCase context value rest

/-- A branch leaves by one port. -/
def branch : Executor :=
  immediate fun node around => do
    let config ← node.configure BranchConfig.decode node.data
    let value ← reading (around.context.resolve config.field.toList)
    let port := (← firstCase around.context value config.cases).getD config.defaultPort
    return (
      { level := .info
        message := "🔀 Branch on '" ++ config.field ++ "' selected port '" ++ port ++ "'" },
      { value := .ofFields [("branch", .string port), ("value", value)]
        routing := .port port false })

/-- The milliseconds of a delay. -/
def delayTime (node : Node) : Except NodeError Nat := do
  let config ← node.configure DelayConfig.decode node.data
  match config.milliseconds? with
  | some ms => return ms
  | none => throw (.badDelay node.id config.duration)

/-- A delay lets time pass, and tells how long it was asked to last and when it was
over. -/
def delay (face : Face) : Executor :=
  prepared (fun node _ => delayTime node) fun _ around ms services =>
    let lasts := Time.slept ms
    ({ opening := [{ level := .info, message := "⏰ Delaying for " ++ toString ms ++ " ms" }]
       finish := some {
         lasts := some lasts
         ending := .answer { value := .ofFields [
           ("delayed", .bool true),
           ("durationMs", .ofNat ms),
           ("resumedAt", (Timestamp.reading (around.now + lasts)).toJson face)] } } },
     services)

/-! ## Calls -/

/-- What an attempt makes of the end of a call whose answer is all that
counts. -/
def answering {α : Type} (output : α → Output) : Ending α → List Note × Ending Output
  | .answer a => ([], .answer (output a))
  | .failure message => ([], .failure message)
  | .panic text => ([], .panic text)

/-- An action is handed to the rules. -/
def action : Executor :=
  prepared (filledIn ActionConfig.decode) fun _ _ config services =>
    let (call, services) := services.dispatch config.actionType config.parameters
    (.ofCall [{ level := .info, message := "⚡ Executing action: " ++ config.actionType }] call <|
      answering fun result => { value := .ofFields [
        ("actionType", .string config.actionType),
        ("parameters", config.parameters),
        ("executed", .bool true),
        ("result", result)] },
     services)

/-- A notification is sent. -/
def notification (face : Face) : Executor :=
  prepared (filledIn decodeNotification) fun _ around message services =>
    match services.notify message around.now with
    | (.ok receipt, services) => (
      .booked <| .succeeded
        { level := .info
          message := "📣 Notification sent via " ++ message.channel ++ " to " ++
            toString receipt.deliveredTo ++ " recipient(s)" }
        { value := .ofFields [
            ("sent", .bool true),
            ("notificationId", .string receipt.id),
            ("type", .string message.channel),
            ("recipients", .ofTexts message.recipients),
            ("message", .string message.message),
            ("sentAt", receipt.sentAt.toJson face)] },
      services)
    | (.error e, services) => (.failed (.notSent e), services)

/-- What a webhook makes of the end of its call. -/
def webhookEnd (config : WebhookConfig) : Ending WebResponse → List Note × Ending Output
  | .answer response => (
    if response.isSuccess then []
    else [{ level := .warn
            message := "⚠️ Webhook responded with status " ++ toString response.status }],
    .answer { value := .ofFields [
      ("success", .bool response.isSuccess),
      ("status", .ofNat response.status),
      ("headers", response.headers.toJson),
      ("body", response.body),
      ("url", .string config.url),
      ("method", .string config.method)] })
  | .failure message => (
    [{ level := .warn, message := "❌ Webhook call failed: " ++ message }],
    .answer { value := .ofFields [
      ("success", .bool false),
      ("error", .string message),
      ("url", .string config.url),
      ("method", .string config.method)] })
  | .panic text => ([], .panic text)

/-- A webhook sends a request, and waits for the response as long as its
data and the settings allow. -/
def webhook (config : EngineConfig) : Executor :=
  prepared (filledIn WebhookConfig.decode) fun _ _ hook services =>
    let limit := min (hook.timeout.getD config.webTimeout) config.webTimeout
    let (call, services) := services.fetch {
      method := hook.method
      url := hook.url
      headers := hook.headers
      body := hook.body
      timeout := limit }
    (.ofCall
      [{ level := .info
         message := "🌍 Webhook " ++ hook.method ++ " " ++ hook.url ++ " (timeout " ++
           toString limit ++ " ms)" }]
      (call.within limit (.failure ("Webhook timed out after " ++ toString limit ++ " ms")))
      (webhookEnd hook),
     services)

/-- What a script finds as its input. -/
def scriptInput (around : Surroundings) : Value :=
  .ofFields [
    ("variables", .object around.context.vars),
    ("tasks", .array (around.context.tasks.map TaskReference.toJson)),
    ("userId", .ofOptionalText around.context.userId),
    ("environment", .string around.context.environment),
    ("executionId", .string around.runId),
    ("workflowId", .string around.workflowId)]

/-- What a script node makes of the end of its call. -/
def scriptEnd : Ending ScriptOutcome → List Note × Ending Output
  | .answer outcome => (
    outcome.stdout.map fun line => { level := .debug, message := "📤 " ++ line },
    if outcome.exitCode == 0 then
      .answer { value := .ofFields [
        ("result", outcome.result),
        ("exitCode", .ofInt outcome.exitCode),
        ("stdout", .ofTexts outcome.stdout),
        ("durationMs", .ofNat outcome.duration)] }
    else .failure (NodeError.scriptFailed outcome.exitCode outcome.error).message)
  | .failure message => ([], .failure message)
  | .panic text => ([], .panic text)

/-- A script is run, and waited for as long as its data or the settings
allow. -/
def script (config : EngineConfig) : Executor :=
  prepared (fun node _ => node.configure ScriptConfig.decode node.data)
    fun _ around script services =>
      let limit := script.timeout.getD config.scriptTimeout
      let (call, services) := services.runScript {
        language := script.language
        code := script.code
        input := scriptInput around
        timeout := limit }
      (.ofCall
        [{ level := .info
           message := "🧠 Running " ++ script.language ++ " script (timeout " ++
             toString limit ++ " ms)" }]
        (call.within limit (.failure (NodeError.scriptTooLate limit).message))
        scriptEnd,
       services)

/-! ## Tasks -/

/-- What the context keeps of a task. -/
def reference (face : Face) (node : Node) (done : TaskAction) (task : TaskRecord) :
    TaskReference where
  taskId := task.id
  action := done
  status := task.status
  snapshot := task.toJson face
  nodeId := node.id

/-- A task is created. -/
def taskCreate (face : Face) : Executor :=
  prepared (fun node around => do
      node.taskFields (← reading (around.context.interpolate node.data)))
    fun node around fields services =>
      let (task, services) := services.createTask fields around.now
      let made := reference face node .created task
      (.booked <| .succeeded
        { level := .info
          message := "📝 Created task " ++ task.id ++ " (" ++ task.status ++ ")" }
        { value := .ofFields [("taskId", .string task.id), ("task", made.snapshot)]
          tasks := [made] },
       services)

/-- A task is updated. -/
def taskUpdate (face : Face) : Executor :=
  prepared (filledIn TaskUpdateConfig.decode) fun node around config services =>
    match services.updateTask config.taskId config.updates around.now with
    | (.ok task, services) =>
      let made := reference face node .updated task
      (.booked <| .succeeded
        { level := .info
          message := "✏️ Updated task " ++ task.id ++ " (" ++ task.status ++ ")" }
        { value := .ofFields [
            ("taskId", .string task.id), ("updated", .bool true), ("task", made.snapshot)]
          tasks := [made] },
       services)
    | (.error e, services) => (.booked (.failed (.unknownTask e)), services)

end Executor

/-- The executors of all node types, under the given settings. -/
def Executors.builtin (face : Face) (config : EngineConfig) : Executors
  | .trigger => some (Executor.trigger face)
  | .condition => some Executor.condition
  | .branch => some Executor.branch
  | .delay => some (Executor.delay face)
  | .action => some Executor.action
  | .notification => some (Executor.notification face)
  | .webhook => some (Executor.webhook config)
  | .script => some (Executor.script config)
  | .taskCreate => some (Executor.taskCreate face)
  | .taskUpdate => some (Executor.taskUpdate face)

end Automation
