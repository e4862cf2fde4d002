/-
Automation.Services.Behaviour — what a collaborator outside does when it
is called.

It answers, fails or panics after some time, or never comes back. The
calls of a collaborator are answered from a list of such behaviours, one
after the other; when the list is used up, a fixed one takes its place.
-/
import Automation.Time.Clock

namespace Automation

/-- How a call ends. -/
inductive Ending (α : Type) where
  | answer (value : α)
  | failure (message : String)
  | panic (text : String)
  deriving Repr, Inhabited

/-- What happens upon a call. -/
inductive Behaviour (α : Type) where
  /-- The call ends after so many milliseconds, or without any wait. -/
  | ends (delay : Option Nat) (ending : Ending α)
  /-- The call never ends. -/
  | hangs
  deriving Repr, Inhabited

namespace Behaviour

/-- A call that ends at once. -/
def atOnce {α : Type} (ending : Ending α) : Behaviour α :=
  .ends none ending

/-- A call that ends after a sleep. -/
def afterSleep {α : Type} (ms : Nat) (ending : Ending α) : Behaviour α :=
  .ends (some (Time.slept ms)) ending

/-- The next behaviour of a list and those after it. -/
def next {α : Type} (fallback : Behaviour α) :
    List (Behaviour α) → Behaviour α × List (Behaviour α)
  | [] => (fallback, [])
  | b :: rest => (b, rest)

/-- Wait for a call, but at most `limit` milliseconds; a call that ends at
the limit is still in time. -/
def within {α : Type} (limit : Nat) (late : Ending α) : Behaviour α → Behaviour α
  | .ends delay ending =>
    if delay.all (· ≤ limit) then .ends delay ending else .ends (some limit) late
  | .hangs => .ends (some limit) late

end Behaviour

end Automation
