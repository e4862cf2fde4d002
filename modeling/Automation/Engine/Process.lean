/-
Automation.Engine.Process — programs that share a state and take turns.

A process changes a state that it shares with others, step by step, and
now and then waits. Some of its changes need a lock, which is open again
after the change. A wait is over when its token is fired, when a deadline
has come or when what it is for has come; if several of these are the
case, the first named of them is what the process is told (`Wait.wake?`).

A process is carried out in turns, and nothing else touches the state
during a turn (`Process.turn`). A turn ends at a wait that is not over and
at a lock that somebody else has. It also ends when the process has used
up its share, of which every change under the lock and every wait that has
come to its end takes a piece. A process that comes to an open lock with
nothing left of its share keeps the lock until its next turn, so whoever
else needs it has to stand in line.

Processes form a monad.
-/

namespace Automation

/-- Why a wait is over. -/
inductive Wake where
  | cancelled | deadline | elapsed
  deriving DecidableEq, Repr, Inhabited

/-- What a wait is for. -/
inductive Due where
  /-- For nothing; it can only be cut off. -/
  | nothing
  | instant (t : Nat)
  /-- For the end of a run in the background. -/
  | run (id : String)
  /-- For something that does not come. -/
  | never
  deriving DecidableEq, Repr, Inhabited

/-- What a process waits for. -/
structure Wait where
  /-- The token that cuts the wait off. -/
  token : Option Nat := none
  /-- The instant that cuts the wait off. -/
  deadline : Option Nat := none
  due : Due
  deriving DecidableEq, Repr, Inhabited

/-- What ends waits. -/
structure Signals where
  now : Nat
  isFired : Nat → Bool
  hasEnded : String → Bool

/-- Who has the lock, as a process sees it. -/
inductive Access where
  /-- Nobody. -/
  | free
  /-- The process itself, and whether somebody stands in line. -/
  | own (wanted : Bool)
  /-- Somebody else. -/
  | taken
  deriving DecidableEq, Repr, Inhabited

/-- A program on states of type `σ` with a result of type `α`. -/
inductive Process (σ α : Type) where
  | done (result : α)
  /-- Change the state, and go on by what it was before. -/
  | act (change : σ → σ) (next : σ → Process σ α)
  /-- The same under the lock. -/
  | locked (change : σ → σ) (next : σ → Process σ α)
  /-- Take pieces of the share. -/
  | spend (pieces : Nat) (next : Process σ α)
  | await (wait : Wait) (next : Wake → Process σ α)

/-- How a turn ends. -/
inductive Outcome (σ α : Type) where
  | ended (result : α)
  /-- At a wait that is not over. -/
  | waits (rest : Process σ α)
  /-- With the share used up, perhaps at an open lock, which is kept. -/
  | yields (rest : Process σ α) (locks : Bool)
  /-- At a lock that somebody else has. -/
  | lines (rest : Process σ α)

/-- A turn: how it ends, what is left of the share, and the state then. -/
structure Turn (σ α : Type) where
  outcome : Outcome σ α
  left : Nat
  state : σ

/-- Whether what a wait is for has come. -/
def Due.hasCome (signals : Signals) : Due → Bool
  | .nothing => true
  | .instant t => t ≤ signals.now
  | .run id => signals.hasEnded id
  | .never => false

namespace Wait

/-- What ends the wait, if anything does. -/
def wake? (wait : Wait) (signals : Signals) : Option Wake :=
  if wait.token.any signals.isFired then some .cancelled
  else if wait.deadline.any (· ≤ signals.now) then some .deadline
  else if wait.due.hasCome signals then some .elapsed
  else none

/-- What the end of the wait takes of the share: nothing if the wait is cut
off by its token or is for nothing. -/
def price (wait : Wait) : Wake → Nat
  | .cancelled => 0
  | .deadline => 1
  | .elapsed => if wait.due == .nothing then 0 else 1

/-- The instant at which the wait ends unless it is cut off by its token;
there may be none. -/
def instant? (wait : Wait) : Option Nat :=
  match wait.deadline, wait.due with
  | some a, .instant b => some (min a b)
  | none, .instant b => some b
  | deadline, _ => deadline

end Wait

namespace Process

variable {σ α β : Type}

instance [Inhabited α] : Inhabited (Process σ α) :=
  ⟨done default⟩

/-- One process after the other. -/
def bind : Process σ α → (α → Process σ β) → Process σ β
  | done a, k => k a
  | act change next, k => act change fun s => (next s).bind k
  | locked change next, k => locked change fun s => (next s).bind k
  | spend pieces next, k => spend pieces (next.bind k)
  | await wait next, k => await wait fun wake => (next wake).bind k

instance : Monad (Process σ) where
  pure := done
  bind := bind

/-- Look at the state. -/
def read (f : σ → α) : Process σ α :=
  act id fun s => done (f s)

/-- One step that has a result. -/
def step (f : σ → α × σ) : Process σ α :=
  act (fun s => (f s).2) fun s => done (f s).1

/-- Look at the state under the lock. -/
def readLocked (f : σ → α) : Process σ α :=
  locked id fun s => done (f s)

/-- One step under the lock that has a result. -/
def stepLocked (f : σ → α × σ) : Process σ α :=
  locked (fun s => (f s).2) fun s => done (f s).1

/-- Wait. -/
def pause (wait : Wait) : Process σ Wake :=
  await wait done

/-- The pieces of a share. -/
def share : Nat := 128

/-- Carry out a process until its turn ends. -/
def turn (signals : σ → Signals) : Process σ α → (left : Nat) → Access → σ → Turn σ α
  | done a, left, _, s => ⟨.ended a, left, s⟩
  | act change next, left, access, s => (next s).turn signals left access (change s)
  | locked change next, left, access, s =>
    match access with
    | .taken => ⟨.lines (locked change next), left, s⟩
    | .own wanted =>
      (next s).turn signals (left - 1) (if wanted then .taken else .free) (change s)
    | .free =>
      if left == 0 then ⟨.yields (locked change next) true, left, s⟩
      else (next s).turn signals (left - 1) .free (change s)
  | spend pieces next, left, access, s => next.turn signals (left - pieces) access s
  | await wait next, left, access, s =>
    if left == 0 then ⟨.yields (await wait next) false, left, s⟩
    else
      match wait.wake? (signals s) with
      | some wake => (next wake).turn signals (left - wait.price wake) access s
      | none => ⟨.waits (await wait next), left, s⟩

/-- The wait that a process has come to. -/
def wait? : Process σ α → Option Wait
  | await wait _ => some wait
  | _ => none

end Process

/-- What is left of a process after a turn. -/
def Outcome.rest {σ α : Type} : Outcome σ α → Process σ α
  | .ended a => .done a
  | .waits p => p
  | .yields p _ => p
  | .lines p => p

end Automation
