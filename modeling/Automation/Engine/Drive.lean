/-
Automation.Engine.Drive — driving a run from its start to its end.

`Engine.prepare` sets a run off, and `Engine.drive` takes it through the
nodes of its workflow: it walks the graph depth first from the start
nodes; each node is attempted as often as its workflow allows, and decides
by its routing where the walk goes on. The record of the run is handed in
to the store when a node is started and when it has ended.

Before every node, and whenever an attempt or the pause before the next
attempt waits, the driver looks whether the run was cancelled and then
whether its time is up; either ends the run.
-/
import Automation.Engine.Options
import Automation.Engine.Retry
import Automation.Engine.Walk
import Automation.Engine.World
import Automation.Node.Executor

namespace Automation

open Automation.Json (Value)

/-- What the engine goes by. -/
structure Engine where
  executors : Executors
  config : EngineConfig

/-- What the driver of one run goes by. -/
structure Driver where
  executors : Executors
  workflow : Workflow
  /-- The cancellation token of the run. -/
  token : Nat
  /-- The instant at which the time of the run is up. -/
  deadline : Option Nat

/-- How a node ends. -/
inductive Verdict where
  | completed (output : Output)
  | failed (error : String)
  | cancelled
  | timedOut
  deriving Repr, Inhabited

/-- What halts a run before all nodes are visited. -/
inductive Halt where
  | failed (node error : String)
  | cancelled
  | timedOut
  deriving DecidableEq, Repr, Inhabited

/-- The text for a run whose time is up. -/
def Settings.timeoutMessage (settings : Settings) : String :=
  "Workflow timed out after " ++ toString (settings.timeout.getD 0) ++ " ms"

/-- How often a node may be attempted. -/
def Settings.maxAttempts (settings : Settings) : Nat :=
  if settings.errorHandling == .retry then max 1 settings.retryPolicy.maxAttempts else 1

/-- What the log of a node ends with. -/
def Verdict.note (settings : Settings) (node : Node) : Verdict → Note
  | .completed _ => { level := .debug, message := "✅ Node '" ++ node.id ++ "' completed" }
  | .failed error =>
    { level := .error, message := "❌ Node '" ++ node.id ++ "' failed: " ++ error }
  | .cancelled => { level := .warn, message := "🛑 Node '" ++ node.id ++ "' cancelled" }
  | .timedOut =>
    { level := .error
      message := "⏰ Node '" ++ node.id ++ "' interrupted: " ++ settings.timeoutMessage }

/-- How an attempt ends a node that is not attempted again. -/
def Verdict.ofEnding : Ending Output → Verdict
  | .answer output => .completed output
  | .failure message => .failed message
  | .panic text => .failed ("Node executor panicked: " ++ text)

/-- The verdict on a node in its record. -/
def NodeRun.conclude (r : NodeRun) (settings : Settings) (now : Nat) : Verdict → NodeRun
  | .completed output => r.complete output.value now
  | .failed error => r.fail error now
  | .cancelled => r.cancel now
  | .timedOut => r.fail settings.timeoutMessage now

/-- What a node leaves in the context. -/
def Context.absorb (c : Context) (node : Node) : Verdict → Context
  | .completed output => (c.recordTasks output.tasks).recordOutput node.id output.value
  | _ => c

/-! ## Steps of a driver -/

namespace Driver

/-- The time. -/
def clock : Process World Nat :=
  .read (·.now)

/-- Hand in the record of the run; what is stored then is its record. -/
def save (run : Run) : Process World Run :=
  .stepLocked (·.saveRun run)

/-- Whether the run was cancelled. -/
def isCancelled (d : Driver) (run : Run) : Process World Bool :=
  .read fun w => w.store.isFired d.token || run.status == .cancelled

/-- Whether the time of the run is up. -/
def isLate (d : Driver) : Process World Bool :=
  .read fun w => d.deadline.any (· ≤ w.now)

/-- Wait, unless the run is cancelled or its time is up. -/
def pause (d : Driver) (due : Due) : Process World Wake :=
  .pause ⟨some d.token, d.deadline, due⟩

/-- Let some milliseconds pass. -/
def sleep (d : Driver) (ms : Nat) : Process World Wake := do
  let now ← clock
  d.pause (.instant (now + ms))

/-- What a wait that was cut off makes of a node. -/
def cutOff : Wake → Verdict
  | .deadline => .timedOut
  | _ => .cancelled

/-- Begin an attempt. -/
def invoke (executor : Executor) (node : Node) (run : Run) : Process World (Attempt × Nat) :=
  .step fun w =>
    let (attempt, services) := executor node ⟨run.context, run.id, run.workflowId, w.now⟩ w.services
    ((attempt, w.now), { w with services })

/-- Wait for the end of an attempt. -/
def awaitEnd (d : Driver) (log : Logger) : Option Finish → Process World (Logger × Verdict)
  | none => return (log, cutOff (← d.pause .never))
  | some finish => do
    let wake ←
      match finish.lasts with
      | none => pure .elapsed
      | some ms => d.sleep ms
    match wake with
    | .elapsed => return (log.writeAll (← clock) finish.closing, .ofEnding finish.ending)
    | wake => return (log, cutOff wake)

/-- Attempt a node once. -/
def attempt (d : Driver) (executor : Executor) (node : Node) (run : Run) (log : Logger) :
    Process World (Logger × Verdict) := do
  match ← d.pause .nothing with
  | .elapsed =>
    let (course, now) ← invoke executor node run
    .spend course.cost (pure ())
    d.awaitEnd (log.writeAll now course.opening) course.finish
  | wake => return (log, cutOff wake)

/-- That an attempt has failed and another one follows. -/
def retryNote (settings : Settings) (number : Nat) (error : String) : Note where
  level := .warn
  message := "🔄 Attempt " ++ toString number ++ "/" ++ toString settings.maxAttempts ++
    " failed: " ++ error ++
    "; retrying in " ++ toString (settings.retryPolicy.delay number) ++ " ms"

/-- Attempt a node until it does not fail, `more` times after the attempt
of this number at most. The number of the last attempt is returned. -/
def attempts (d : Driver) (executor : Executor) (node : Node) (run : Run) :
    (more number : Nat) → Logger → Process World (Nat × Logger × Verdict)
  | 0, number, log => do
    let (log, verdict) ← d.attempt executor node run log
    return (number, log, verdict)
  | more + 1, number, log => do
    let (log, verdict) ← d.attempt executor node run log
    match verdict with
    | .failed error =>
      let settings := d.workflow.settings
      let now ← clock
      let log := log.write now (retryNote settings number error)
      match ← d.sleep (settings.retryPolicy.delay number) with
      | .elapsed => d.attempts executor node run more (number + 1) log
      | wake => return (number, log, cutOff wake)
    | verdict => return (number, log, verdict)

/-- Take the run through one node. -/
def runNode (d : Driver) (node : Node) (run : Run) : Process World (Run × Verdict) := do
  let settings := d.workflow.settings
  let now ← clock
  let started := NodeRun.start node run.context.vars now
  let run ← save (run.addNode started)
  let log := Logger.ofSettings settings.logging
  let (number, log, verdict) ←
    match d.executors node.type with
    | some executor => d.attempts executor node run (settings.maxAttempts - 1) 1 log
    | none =>
      pure (0, log, .failed ("No executor registered for node type: " ++ node.type.name))
  let now ← clock
  let log := log.write now (verdict.note settings node)
  let ended :=
    { started.conclude settings now verdict with attempts := number, logs := log.entries }
  let run ← save ({ run with context := run.context.absorb node verdict }.updateNode ended)
  return (run, verdict)

/-- Visit a node of the graph. -/
def visit (d : Driver) (g : Graph) (id : String) (run : Run) :
    Process World (Run × Onward Halt) := do
  if ← d.isCancelled run then return (run, .halt .cancelled)
  if ← d.isLate then return (run, .halt .timedOut)
  match g.node? id with
  | none => return (run, .follow [])
  | some node =>
    let (run, verdict) ← d.runNode node run
    match verdict with
    | .completed output => return (run, .follow (g.next output.routing id))
    | .failed error =>
      if d.workflow.settings.errorHandling == .goOn then
        return (run.addFailure id, .follow [])
      else return (run, .halt (.failed id error))
    | .cancelled => return (run, .halt .cancelled)
    | .timedOut => return (run, .halt .timedOut)

/-- Bring the run to its end. -/
def conclude (d : Driver) (run : Run) (halt : Option Halt) : Process World Run := do
  let now ← clock
  match halt with
  | some (.failed node error) =>
    save (run.fail ("Node '" ++ node ++ "' failed: " ++ error) now)
  | some .timedOut => save (run.fail d.workflow.settings.timeoutMessage now)
  | _ =>
    if ← d.isCancelled run then save (run.cancel now) else save (run.finish .completed now)

end Driver

/-! ## Runs -/

namespace Engine

/-- Set a run off: enter it in the store, and as failed if its workflow is
not valid. The record and its cancellation token are returned. -/
def prepare (e : Engine) (w : Workflow) (payload : Value) (options : RunOptions) :
    Process World (Run × Nat) := do
  let now ← Driver.clock
  let id ← Process.read (·.nextRun)
  let context := Context.seed w payload options.overrides e.config.environment (.reading now)
  let run := Run.start w id payload context options.source now
  let token ← Process.stepLocked (·.addRun run)
  if w.isValid then return (run, token)
  else return (← Driver.save (run.fail ("Workflow validation failed: " ++ w.summary) now), token)

/-- Take a run through its workflow. -/
def drive (e : Engine) (w : Workflow) (run : Run) (token : Nat) : Process World Run := do
  if run.status.isTerminal then return run
  let now ← Driver.clock
  let d : Driver := ⟨e.executors, w, token, w.settings.timeout.map (now + ·)⟩
  let g := Graph.ofWorkflow w
  let (run, halt) ← walk (d.visit g) g.size [] g.starts run
  d.conclude run halt

/-- Run a workflow from start to end. -/
def execute (e : Engine) (w : Workflow) (payload : Value) (options : RunOptions) :
    Process World Run := do
  let (run, token) ← e.prepare w payload options
  e.drive w run token

/-- How often a run of a workflow comes to a wait or to the lock at most. -/
def stops (w : Workflow) : Nat :=
  w.nodes.length * (3 * w.settings.maxAttempts + 2) + 3

end Engine

end Automation
