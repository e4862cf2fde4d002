/-
Automation.Time.Moment — dates with a time of day, in UTC.

A moment is written as RFC 3339 lays down: `2020-01-02T03:04:05.600Z`,
with no fraction of a second or one of three, six or nine digits, and a
sign before a year outside 0000 to 9999. The reader takes more: an offset
from UTC, which is converted; one digit where two are usual; blanks
around each number and around the offset; `t` or a blank between date and
time; more than nine digits of a fraction, of which nine count; a sixtieth
second, which is a leap second.

An offset is a whole number of minutes and less than a day, so it can
only carry a moment into the day before or the day after.
-/
import Automation.Text.Blank
import Automation.Text.Numeral

namespace Automation.Time

open Automation.Text (padded)

/-- A date and time of day in UTC. -/
structure Moment where
  year : Int
  month : Nat
  day : Nat
  hour : Nat
  minute : Nat
  /-- Up to 60, which is a leap second. -/
  second : Nat
  nanosecond : Nat
  deriving DecidableEq, Repr, Inhabited

namespace Moment

/-! ## The calendar -/

/-- The first and the last year of the calendar. -/
def years : Int × Int := (-262143, 262142)

/-- Whether the year has a 29th of February. -/
def isLeap (year : Int) : Bool :=
  year % 4 == 0 && (year % 100 != 0 || year % 400 == 0)

/-- The number of days of a month. -/
def daysOf (year : Int) (month : Nat) : Nat :=
  if month == 2 then if isLeap year then 29 else 28
  else if month == 4 || month == 6 || month == 9 || month == 11 then 30
  else 31

/-- The same time on the next day. -/
def nextDay (m : Moment) : Moment :=
  if m.day < daysOf m.year m.month then { m with day := m.day + 1 }
  else if m.month < 12 then { m with month := m.month + 1, day := 1 }
  else { m with year := m.year + 1, month := 1, day := 1 }

/-- The same time on the day before. -/
def previousDay (m : Moment) : Moment :=
  if 1 < m.day then { m with day := m.day - 1 }
  else if 1 < m.month then
    { m with month := m.month - 1, day := daysOf m.year (m.month - 1) }
  else { m with year := m.year - 1, month := 12, day := 31 }

/-- The time of day in minutes. -/
def minutes (m : Moment) : Int :=
  m.hour * 60 + m.minute

/-- The moment in UTC of a local time that is ahead of UTC by `offset`
minutes. -/
def ofLocal (m : Moment) (offset : Int) : Moment :=
  let t := m.minutes - offset
  let ofDay := (t % 1440).toNat
  let moved := { m with hour := ofDay / 60, minute := ofDay % 60 }
  if t < 0 then moved.previousDay else if 1440 ≤ t then moved.nextDay else moved

/-- The calendar has this moment. -/
def Valid (m : Moment) : Prop :=
  years.1 ≤ m.year ∧ m.year ≤ years.2 ∧ 1 ≤ m.month ∧ m.month ≤ 12 ∧
    1 ≤ m.day ∧ m.day ≤ daysOf m.year m.month ∧ m.hour ≤ 23 ∧ m.minute ≤ 59 ∧
    m.second ≤ 60 ∧ m.nanosecond < 1000000000

instance (m : Moment) : Decidable m.Valid :=
  inferInstanceAs (Decidable (_ ∧ _))

/-! ## Writing -/

/-- The digits of a year, with a sign if four digits do not do. -/
def writeYear (year : Int) : List Char :=
  if 0 ≤ year ∧ year ≤ 9999 then padded 4 year.toNat
  else (if year < 0 then '-' else '+') :: padded 4 year.natAbs

/-- A fraction of a second, in as few groups of three digits as it takes. -/
def writeFraction (nanosecond : Nat) : List Char :=
  if nanosecond == 0 then []
  else if nanosecond % 1000000 == 0 then '.' :: padded 3 (nanosecond / 1000000)
  else if nanosecond % 1000 == 0 then '.' :: padded 6 (nanosecond / 1000)
  else '.' :: padded 9 nanosecond

/-- The text of a moment. -/
def render (m : Moment) : String :=
  String.ofList (writeYear m.year ++ '-' :: padded 2 m.month ++ '-' :: padded 2 m.day ++
    'T' :: padded 2 m.hour ++ ':' :: padded 2 m.minute ++ ':' :: padded 2 m.second ++
    writeFraction m.nanosecond ++ ['Z'])

/-! ## Reading -/

/-- Why a text is no moment. -/
inductive ReadError where
  | tooShort
  | invalid
  | outOfRange
  | impossible
  | trailing
  deriving DecidableEq, Repr

/-- The wording of a refusal. -/
def ReadError.message : ReadError → String
  | .tooShort => "premature end of input"
  | .invalid => "input contains invalid characters"
  | .outOfRange => "input is out of range"
  | .impossible => "no possible date and time matching input"
  | .trailing => "trailing input"

/-- Reading from the front of a text. -/
abbrev Reading := StateT (List Char) (Except ReadError)

/-- Drop the blanks in front. -/
def blanks : Reading Unit :=
  modify Text.trimStart

/-- One digit, and what follows of them up to `most` in all. -/
def number (most : Option Nat) : Reading Nat := do
  let s ← get
  let found := s.takeWhile Char.isDigit
  let taken := match most with
    | some n => found.take n
    | none => found
  if s.isEmpty then throw .tooShort
  match Text.natural? taken with
  | none => throw .invalid
  | some n => set (s.drop taken.length); return n

/-- The number, if it lies within bounds. -/
def within (least most n : Int) : Reading Unit :=
  if least ≤ n ∧ n ≤ most then pure () else throw .outOfRange

/-- One or two digits after any blanks, for a number within bounds. -/
def part (least most : Nat) : Reading Nat := do
  blanks
  let n ← number (some 2)
  within least most n
  return n

/-- One character that passes the test. -/
def char (test : Char → Bool) : Reading Unit := do
  match ← get with
  | [] => throw .tooShort
  | c :: rest => if test c then set rest else throw .invalid

/-- A character between two numbers, after any blanks. -/
def separator (c : Char) : Reading Unit := do
  blanks
  char (· == c)

/-- Up to four digits after any blanks, or any number of them behind a
sign. -/
def readYear : Reading Int := do
  blanks
  let year : Int ← match ← get with
    | '-' :: rest => do set rest; pure (-((← number none) : Int))
    | '+' :: rest => do set rest; pure ((← number none) : Int)
    | _ => do pure ((← number (some 4)) : Int)
  within (-2147483648) 2147483647 year
  return year

/-- A fraction of a second in nanoseconds, if there is one. -/
def readFraction : Reading Nat := do
  match ← get with
  | '.' :: rest =>
    set rest
    let n ← number (some 9)
    let digits := rest.length - (← get).length
    modify fun s => s.dropWhile Char.isDigit
    return n * Nat.pow 10 (9 - digits)
  | _ => return 0

/-- Two digits. -/
def twoDigits : Reading Nat := do
  match ← get with
  | a :: b :: rest =>
    match Text.natural? [a, b] with
    | some n => set rest; return n
    | none => throw .invalid
  | [c] => throw (if c.toNat < 0x80 then .tooShort else .invalid)
  | [] => throw .tooShort

/-- Hours and minutes of an offset, with or without a colon or blanks
between them. -/
def hoursAndMinutes : Reading Int := do
  let hours ← twoDigits
  modify fun s => s.dropWhile fun c => c == ':' || Text.isBlank c
  let minutes ← twoDigits
  within 0 59 minutes
  return (hours * 60 + minutes : Nat)

/-- An offset from UTC in minutes. -/
def readOffset : Reading Int := do
  match ← get with
  | [] => throw .tooShort
  | c :: rest =>
    if c == 'Z' || c == 'z' then set rest; return 0
    else if (c :: rest.take 2).map Char.toLower == ['u', 't', 'c'] then
      set (rest.drop 2); return 0
    else if c == '+' then set rest; hoursAndMinutes
    else if c == '-' || c.toNat == 0x2212 then
      set rest
      return -(← hoursAndMinutes)
    else throw .invalid

/-- A date, a time of day and an offset, as they are written. -/
def readLocal : Reading (Moment × Int) := do
  let year ← readYear
  separator '-'
  let month ← part 1 12
  separator '-'
  let day ← part 1 31
  char fun c => c == 'T' || c == 't' || c == ' '
  let hour ← part 0 23
  separator ':'
  let minute ← part 0 59
  separator ':'
  let second ← part 0 60
  let nanosecond ← readFraction
  blanks
  let offset ← readOffset
  return (⟨year, month, day, hour, minute, second, nanosecond⟩, offset)

/-- Read a moment. -/
def read (text : String) : Except ReadError Moment := do
  let ((m, offset), rest) ← readLocal.run text.toList
  if !(Text.trimStart rest).isEmpty then throw .trailing
  if !decide m.Valid then throw .outOfRange
  if offset ≤ -1440 || 1440 ≤ offset then throw .outOfRange
  if !decide (m.ofLocal offset).Valid then throw .impossible
  return m.ofLocal offset

end Moment

end Automation.Time
