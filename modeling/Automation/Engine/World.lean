/-
Automation.Engine.World — everything that requests and runs share.
-/
import Automation.Engine.Process
import Automation.Run.Store
import Automation.Services.Basic
import Automation.Workflow.Registry

namespace Automation

/-- The shared state. -/
structure World where
  /-- The milliseconds since the engine was set going. -/
  now : Nat := 0
  registry : Registry := {}
  store : Store := {}
  services : Services := {}
  /-- The ids of runs. -/
  series : Series := { start := "exec-" }
  /-- The number of runs that were set off. -/
  runs : Nat := 0
  /-- The runs in the background that nobody has fetched, with their results
  as far as they have ended. -/
  background : List (String × Option Run) := []
  deriving Repr, Inhabited

namespace World

/-- The id of the next run. -/
def nextRun (w : World) : String :=
  w.series.id (w.runs + 1)

/-- Enter a new run. -/
def addRun (w : World) (run : Run) : Nat × World :=
  let (token, store) := w.store.register run
  (token, { w with store, runs := w.runs + 1 })

/-- Hand in the record of a run. -/
def saveRun (w : World) (run : Run) : Run × World :=
  let (run, store) := w.store.save run
  (run, { w with store })

/-- Cancel a run. -/
def cancelRun (w : World) (id : String) : Bool × World :=
  let (cancelled, store) := w.store.cancel id w.now
  (cancelled, { w with store })

/-- Forget a run. -/
def removeRun (w : World) (id : String) : Option Run × World :=
  let (run, store) := w.store.remove id
  (run, { w with store })

/-! ## Runs in the background -/

/-- Put a run into the background. -/
def leaveRun (w : World) (id : String) : World :=
  { w with background := w.background ++ [(id, none)] }

/-- A run in the background has come to its end. -/
def endRun (w : World) (id : String) (run : Run) : World :=
  { w with background := w.background.map fun entry =>
      if entry.1 == id then (id, some run) else entry }

/-- Whether a run is in the background. -/
def isBehind (w : World) (id : String) : Bool :=
  w.background.any fun entry => entry.1 == id

/-- Whether a run in the background has come to its end. -/
def hasEnded (w : World) (id : String) : Bool :=
  (w.background.lookup id).any (·.isSome)

/-- Fetch the result of a run in the background. -/
def fetchRun (w : World) (id : String) : Option Run × World :=
  ((w.background.lookup id).join,
    { w with background := w.background.filter fun entry => entry.1 != id })

/-- What ends waits in this state. -/
def signals (w : World) : Signals where
  now := w.now
  isFired := w.store.isFired
  hasEnded := w.hasEnded

end World

end Automation
