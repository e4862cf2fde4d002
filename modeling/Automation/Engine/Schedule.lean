/-
Automation.Engine.Schedule — a request and the runs in the background.

Runs in the background are jobs. They take turns whenever a request has to
give way; work takes no time, and when everything waits, the clock jumps
to the next instant that anything waits for. At one instant the request
comes first, and then the jobs in the order in which they became ready. A
request that has given way looks again after a round of turns, and when it
is over it leaves the jobs as they are, those included whose instant has
just come.

What the request and the jobs change in the store they change under one
lock. Whoever finds it taken stands in line, and it is handed on in the
order of the line.
-/
import Automation.Engine.Drive

namespace Automation

open Automation.Json (Value)

/-- A run in the background. -/
structure Job where
  id : String
  process : Process World Run
  /-- How often it comes to a wait or to the lock at most. -/
  stops : Nat
  /-- Whether it keeps the lock until its next turn. -/
  locks : Bool := false

/-- The shared state and the jobs. -/
structure Schedule where
  world : World := {}
  /-- What is left of the share of the request. -/
  left : Nat := Process.share
  /-- Whether the request keeps the lock until its next turn. -/
  locks : Bool := false
  /-- The jobs that can take a turn, in order. -/
  ready : List Job := []
  /-- The jobs that wait, in the order in which they began to. -/
  waiting : List Job := []
  /-- The jobs that have used up their share in this round. -/
  tired : List Job := []
  /-- Who stands in line for the lock; `none` is the request. -/
  line : List (Option Job) := []

namespace Schedule

/-! ## Turns -/

/-- Who has the lock, as somebody sees it who keeps it or not. -/
def access (s : Schedule) (locks : Bool) : Access :=
  if locks then .own (!s.line.isEmpty)
  else if s.locks || (s.ready ++ s.tired).any (·.locks) then .taken
  else .free

/-- Hand the lock on to the first in line. -/
def handOn (s : Schedule) : Schedule :=
  match s.line with
  | [] => s
  | none :: line => { s with line, locks := true }
  | some job :: line => { s with line, ready := s.ready ++ [{ job with locks := true }] }

/-- Hand the lock on if somebody who kept it has opened it again. -/
def release (s : Schedule) (before : Access) : Schedule :=
  if before == .own true then s.handOn else s

/-- Let a job take a turn. -/
def take (s : Schedule) (job : Job) : Schedule :=
  let access := s.access job.locks
  let turn := job.process.turn World.signals Process.share access s.world
  let s := { s with world := turn.state }.release access
  match turn.outcome with
  | .ended run => { s with world := s.world.endRun job.id run }
  | .waits p => { s with waiting := s.waiting ++ [{ job with process := p, locks := false }] }
  | .yields p locks => { s with tired := s.tired ++ [{ job with process := p, locks }] }
  | .lines p => { s with line := s.line ++ [some { job with process := p, locks := false }] }

/-- Whether a process has come to a wait that is over. -/
def isOver {α : Type} (w : World) (p : Process World α) : Bool :=
  p.wait?.any fun wait => (wait.wake? w.signals).isSome

/-- The jobs whose wait is over become ready. -/
def rouse (s : Schedule) : Schedule :=
  let (roused, waiting) := s.waiting.partition fun job => isOver s.world job.process
  { s with ready := s.ready ++ roused, waiting }

/-- Let the request take a turn, with what is left of its share. -/
def turn {α : Type} (s : Schedule) (request : Process World α) : Outcome World α × Schedule :=
  let access := s.access s.locks
  let turn := request.turn World.signals s.left access s.world
  let s := { s with world := turn.state, left := Process.share, locks := false }.release access
  let s :=
    match turn.outcome with
    | .ended _ => { s with left := turn.left }
    | .waits _ => s
    | .yields _ locks => { s with locks }
    | .lines _ => { s with line := s.line ++ [none] }
  (turn.outcome, s.rouse)

/-- Whether a request that has given way can go on. -/
def canGoOn {α : Type} (s : Schedule) : Outcome World α → Bool
  | .waits p => isOver s.world p
  | .lines _ => s.locks
  | _ => true

/-! ## Rounds -/

/-- The number of turns in a round. -/
def turns : Nat := 61

/-- Let jobs take turns, at most so many. -/
def takeTurns : Nat → Schedule → Schedule
  | 0, s => s
  | n + 1, s =>
    match s.ready with
    | [] => s
    | job :: ready => takeTurns n ({ s with ready }.take job)

/-- A round of turns; then those that have used up their share are ready
again. -/
def round (s : Schedule) : Schedule :=
  let s := takeTurns turns s
  { s with ready := s.ready ++ s.tired, tired := [] }

/-- Let the clock show a later instant. -/
def setClock (s : Schedule) (now : Nat) : Schedule :=
  { s with world.now := max s.world.now now }.rouse

/-- The next instant that a request or a job waits for. -/
def next? {α : Type} (s : Schedule) (request : Process World α) : Option Nat :=
  let instant {β : Type} (p : Process World β) : Option Nat := p.wait?.bind (·.instant?)
  ((instant request :: s.waiting.map fun job => instant job.process).filterMap id).min?

/-- How many turns are left to the jobs at most, and jumps to the clock. -/
def bound (s : Schedule) : Nat :=
  let jobs := s.ready ++ s.waiting ++ s.tired ++ s.line.filterMap id
  jobs.foldl (fun all job => all + 3 * (job.stops + 1)) 0

/-- Carry through a request that has given way, the jobs beside it; nothing
is returned if it waits for ever. -/
def attend {α : Type} : (fuel : Nat) → Outcome World α → Schedule → Option α × Schedule
  | 0, _, s => (none, s)
  | fuel + 1, request, s =>
    if s.canGoOn request then
      match s.turn request.rest with
      | (.ended a, s) => (some a, s)
      | (request, s) => attend fuel request s.round
    else if s.ready.isEmpty then
      match s.next? request.rest with
      | some instant => attend fuel request (s.setClock instant)
      | none => (none, s)
    else attend fuel request s.round

/-- Carry through a request that comes to a wait or to the lock at most
`stops` times. -/
def serve {α : Type} (s : Schedule) (stops : Nat) (request : Process World α) :
    Option α × Schedule :=
  attend (3 * (stops + 1) + s.bound) (.yields request false) s

/-! ## Requests -/

/-- Put a run that was set off into the background. -/
def background (s : Schedule) (e : Engine) (w : Workflow) (run : Run) (token : Nat) : Schedule :=
  { s with
    world := s.world.leaveRun run.id
    ready := s.ready ++ [⟨run.id, e.drive w run token, Engine.stops w, false⟩] }

/-- Run a workflow, and wait for the result. -/
def execute (s : Schedule) (e : Engine) (w : Workflow) (payload : Value) (options : RunOptions) :
    Option Run × Schedule :=
  s.serve (Engine.stops w) (e.execute w payload options)

/-- Run a workflow in the background; the id of the run is returned. -/
def spawn (s : Schedule) (e : Engine) (w : Workflow) (payload : Value) (options : RunOptions) :
    Option String × Schedule :=
  match s.serve 2 (e.prepare w payload options) with
  | (some (run, token), s) => (some run.id, s.background e w run token)
  | (none, s) => (none, s)

/-- Sleep for some milliseconds; what is due at the very end is left to the jobs. -/
def advance (s : Schedule) (ms : Nat) : Schedule :=
  let instant := s.world.now + Time.slept ms
  (s.serve 1 (.pause { due := .instant instant })).2

/-- Wait for the end of a run in the background, and fetch its result; there
is none if there is no such run, or its result was fetched before. -/
def join (s : Schedule) (id : String) : Option Run × Schedule :=
  if s.world.isBehind id then
    match s.serve 1 (.pause { due := .run id } >>= fun _ => .step (·.fetchRun id)) with
    | (some run, s) => (run, s)
    | (none, s) => (none, s)
  else (none, s)

/-- Look at the store. -/
def inspect {α : Type} (s : Schedule) (look : Store → α) : Option α × Schedule :=
  s.serve 1 (.readLocked fun w => look w.store)

/-- Cancel a run, unless it has ended. -/
def cancel (s : Schedule) (id : String) : Option Bool × Schedule :=
  s.serve 1 (.stepLocked (·.cancelRun id))

/-- Forget a run; if it has not ended, it goes on. -/
def remove (s : Schedule) (id : String) : Option (Option Run) × Schedule :=
  s.serve 1 (.stepLocked (·.removeRun id))

end Schedule

end Automation
