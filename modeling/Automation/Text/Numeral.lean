/-
Automation.Text.Numeral — whole numbers written in ASCII digits.

`natural?` reads one or more ASCII digits and nothing else. `unsigned?`
is the form that settings and path segments use: one plus sign may stand
in front, and the number must not exceed a bound. No other character is
allowed, blanks, separators and digits of other scripts included.
`padded` writes a number with zeros in front.
-/

namespace Automation.Text

/-- The value of an ASCII digit. -/
def digit? (c : Char) : Option Nat :=
  if c.isDigit then some (c.toNat - '0'.toNat) else none

/-- The value of a string of digits read after the number `start`. -/
def naturalFrom (start : Nat) : List Char → Option Nat
  | [] => some start
  | c :: rest => (digit? c).bind fun d => naturalFrom (start * 10 + d) rest

/-- The number written by one or more digits. -/
def natural? (s : List Char) : Option Nat :=
  if s.isEmpty then none else naturalFrom 0 s

/-- The number written by digits after an optional plus sign, if it is at
most `bound`. -/
def unsigned? (bound : Nat) (s : List Char) : Option Nat :=
  let digits := match s with
    | '+' :: rest => rest
    | s => s
  (natural? digits).filter (· ≤ bound)

/-- At least `width` digits. -/
def padded (width n : Nat) : List Char :=
  let ds := Nat.toDigits 10 n
  List.replicate (width - ds.length) '0' ++ ds

/-- The largest number of sixteen bits. -/
def largest16 : Nat := 65535

/-- The largest number of sixty-four bits. -/
def largest64 : Nat := 18446744073709551615

end Automation.Text
