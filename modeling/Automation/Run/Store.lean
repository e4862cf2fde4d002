/-
Automation.Run.Store — the runs that are known, by id.

Every stored run has a cancellation token: whoever drives the run is
handed the token when it is registered, and looks at it to learn that the
run was cancelled. `cancel` marks a stored run as cancelled and fires its
token. A driver has a record of its own and hands it in by `save`; once a
run is stored as cancelled, its status and dates stay as they are, and the
driver gets them back.

Each operation happens at once.
-/
import Automation.Run.Record

namespace Automation

/-- A run and its cancellation token. -/
structure StoredRun where
  run : Run
  token : Nat
  deriving Repr, Inhabited

/-- The runs that are known, one of each id. -/
structure Store where
  entries : List StoredRun := []
  /-- How many tokens have been handed out. -/
  tokens : Nat := 0
  /-- The tokens that have been fired. -/
  fired : List Nat := []
  deriving Repr, Inhabited

namespace Store

/-- The entry of an id. -/
def entry? (s : Store) (id : String) : Option StoredRun :=
  s.entries.find? fun e => e.run.id == id

/-- The run of an id. -/
def get? (s : Store) (id : String) : Option Run :=
  (s.entry? id).map (·.run)

/-- The number of runs. -/
def size (s : Store) : Nat :=
  s.entries.length

/-- Whether a token has been fired. -/
def isFired (s : Store) (token : Nat) : Bool :=
  s.fired.contains token

/-- Set an entry in the place of its id, or at the end. -/
def place (e : StoredRun) : List StoredRun → List StoredRun
  | [] => [e]
  | f :: rest => if f.run.id == e.run.id then e :: rest else f :: place e rest

/-- Store a run under a new token. -/
def register (s : Store) (run : Run) : Nat × Store :=
  (s.tokens, { s with entries := place ⟨run, s.tokens⟩ s.entries, tokens := s.tokens + 1 })

/-- What the record of a driver becomes beside the stored one. -/
def merge (stored run : Run) : Run :=
  if stored.status == .cancelled then
    { run with
      status := .cancelled
      completedAt := stored.completedAt
      duration := stored.duration
      error := stored.error <|> run.error }
  else run

/-- Hand in the record of a driver; the record that is stored then is
handed back. A run that is not known becomes known. -/
def save (s : Store) (run : Run) : Run × Store :=
  match s.entry? run.id with
  | some e =>
    let merged := merge e.run run
    (merged, { s with entries := place ⟨merged, e.token⟩ s.entries })
  | none => (run, (s.register run).2)

/-- Cancel a run, unless it is not known or has ended. -/
def cancel (s : Store) (id : String) (now : Nat) : Bool × Store :=
  match s.entry? id with
  | some e =>
    match e.run.cancel? now with
    | some run =>
      (true, { s with
        entries := place ⟨run, e.token⟩ s.entries
        fired := e.token :: s.fired })
    | none => (false, s)
  | none => (false, s)

/-- Forget a run. -/
def remove (s : Store) (id : String) : Option Run × Store :=
  match s.get? id with
  | some run => (some run, { s with entries := s.entries.filter fun e => e.run.id != id })
  | none => (none, s)

/-- Whether one run stands before another: the older one, and of one
instant the one with the shorter id, then the lesser id; so numbered ids
stand in the order of their numbers. -/
def precedes (a b : Run) : Bool :=
  if a.startedAt.notAfter b.startedAt then
    !b.startedAt.notAfter a.startedAt ||
      a.id.length < b.id.length || (a.id.length == b.id.length && a.id ≤ b.id)
  else false

/-- All runs, the oldest first. -/
def list (s : Store) : List Run :=
  (s.entries.map (·.run)).mergeSort precedes

/-- The runs of a workflow, the oldest first. -/
def listFor (s : Store) (workflowId : String) : List Run :=
  s.list.filter fun run => run.workflowId == workflowId

end Store

end Automation
