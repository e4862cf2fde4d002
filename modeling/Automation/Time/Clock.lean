/-
Automation.Time.Clock — points in time and how they are shown.

A `Timestamp` comes from outside, as a calendar moment, or is a reading of
the clock that runs with the engine, in milliseconds since it was set
going. How readings and the spans between them appear in an answer is a
`Face`; `Face.utc` shows them as moments from 1970 on and as milliseconds.
-/
import Automation.Time.Moment
import Automation.Json.Value

namespace Automation.Time

/-- A point in time. -/
inductive Timestamp where
  | moment (m : Moment)
  | reading (ms : Nat)
  deriving DecidableEq, Repr, Inhabited

/-- The longest that the timer of the runtime sleeps: thirty years of 365 days, in
milliseconds. The engine sets no such bound: it asks its runtime to be woken after any
number of milliseconds. The bound is that of the runtime's timer, a library the
engine is built on, which ends longer sleeps there. On record are a delay of 20000
days that is over in time for a deadline after thirty years and a millisecond, and one
of 10951 days that is late for a deadline after thirty years. -/
def longestSleep : Nat := 30 * 365 * 24 * 60 * 60 * 1000

/-- The milliseconds after which the timer wakes who asked for so many. This is for
sleeps alone: deadlines of runs and limits of calls are instants that are compared with
the clock, and are as far away as they are set. -/
def slept (ms : Nat) : Nat := min ms longestSleep

/-- How the clock is shown. -/
structure Face where
  instant : Nat → String
  span : Int → Json.Value

namespace Moment

/-- The first moment of 1970. -/
def epoch : Moment := ⟨1970, 1, 1, 0, 0, 0, 0⟩

/-- The same time some days later. -/
def addDays : Nat → Moment → Moment
  | 0, m => m
  | days + 1, m => addDays days m.nextDay

/-- Milliseconds after the first moment of 1970. -/
def afterEpoch (ms : Nat) : Moment :=
  let seconds := ms / 1000
  { epoch.addDays (seconds / 86400) with
    hour := seconds % 86400 / 3600
    minute := seconds % 3600 / 60
    second := seconds % 60
    nanosecond := ms % 1000 * 1000000 }

/-- The parts of a moment, the weightiest first. -/
def key (m : Moment) : List Int :=
  [m.year, m.month, m.day, m.hour, m.minute, m.second, m.nanosecond]

/-- Not later; the weightiest part in which two moments differ decides. -/
def notAfter (a b : Moment) : Bool :=
  match (a.key.zip b.key).find? fun (m, n) => m != n with
  | some (m, n) => m < n
  | none => true

end Moment

/-- Readings as moments from 1970 on, and spans as milliseconds. -/
def Face.utc : Face where
  instant ms := (Moment.afterEpoch ms).render
  span := Json.Value.ofInt

namespace Timestamp

/-- The text of a point in time. -/
def render (face : Face) : Timestamp → String
  | .moment m => m.render
  | .reading ms => face.instant ms

/-- The JSON value of a point in time. -/
def toJson (face : Face) (t : Timestamp) : Json.Value :=
  .string (t.render face)

/-- Not later. Moments from outside come before readings. -/
def notAfter : Timestamp → Timestamp → Bool
  | .reading a, .reading b => a ≤ b
  | .moment a, .moment b => a.notAfter b
  | .moment _, .reading _ => true
  | .reading _, .moment _ => false

/-- The milliseconds from a point in time up to a reading; none from a
moment outside. -/
def elapsed (t : Timestamp) (reading : Nat) : Int :=
  match t with
  | .reading ms => (reading : Int) - ms
  | .moment _ => 0

end Timestamp

end Automation.Time
