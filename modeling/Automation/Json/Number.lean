/-
Automation.Json.Number — the numbers of JSON values.

A number is an integer of at most sixty-four bits, signed or not, or a
double. `Number.ofWritten?` turns the digits of a written number into one:
without fraction and exponent it is an integer if it lies in range, and
every other number is a double, `-0` included. A double is computed from
the leading digits that fit into sixty-four bits and one power of ten; a
magnitude beyond the doubles is no number.

Two numbers are the same when they are of one sort and equal. `toFloat`
forgets the sort, so it identifies `3` with `3.0`, and also integers that
round to one double.
-/
import Automation.Text.Numeral
import Automation.Decimal.Text

namespace Automation.Json

open Automation.Text (largest64)

/-- A number of a JSON value. -/
inductive Number where
  | integer (value : Int)
  | real (value : Float)
  deriving Repr, Inhabited

namespace Number

/-- The least integer of sixty-four bits. -/
def leastInteger : Int := -9223372036854775808

/-- The integers that are kept exactly. -/
def InRange (i : Int) : Prop :=
  leastInteger ≤ i ∧ i ≤ largest64

instance (i : Int) : Decidable (InRange i) :=
  inferInstanceAs (Decidable (_ ∧ _))

/-- Equality within one sort of number. -/
def same : Number → Number → Bool
  | .integer a, .integer b => a == b
  | .real a, .real b => a == b
  | _, _ => false

/-- The nearest double. -/
def toFloat : Number → Float
  | .integer i => Float.ofInt i
  | .real x => x

/-- The text of a number. -/
def render : Number → String
  | .integer i => toString i
  | .real x => Decimal.render .json x

/-! ## Reading -/

/-- The digits of a written number, sorted by their place. -/
structure Written where
  negative : Bool
  whole : List Nat
  /-- The digits after the point; empty when there is no point. -/
  fraction : List Nat
  /-- The exponent of ten, if one is written. -/
  exponent : Option Int

/-- The leading digits that fit into sixty-four bits, after `start`, and
how many are left. -/
def leading (start : Nat) : List Nat → Nat × Nat
  | [] => (start, 0)
  | d :: rest =>
    if start * 10 + d ≤ largest64 then leading (start * 10 + d) rest
    else (start, rest.length + 1)

/-- A power of ten as a double. -/
def tenTo (n : Nat) : Float :=
  Float.ofScientific 1 false n

/-- The quotient of `x` and `10 ^ n`, dividing by at most `10 ^ 308` at a
time. Five steps take every double to zero. -/
def shrink : Nat → Float → Nat → Float
  | 0, x, _ => x
  | steps + 1, x, n =>
    if n ≤ 308 then x / tenTo n else shrink steps (x / tenTo 308) (n - 308)

/-- The double `significand · 10 ^ exponent`, unless it is beyond all of
them. -/
def double? (significand : Nat) (exponent : Int) : Option Float :=
  let x := Float.ofNat significand
  if exponent < 0 then some (shrink 5 x exponent.natAbs)
  else if significand == 0 then some x
  else if exponent ≤ 308 then
    let y := x * tenTo exponent.toNat
    if y.isFinite then some y else none
  else none

/-- The number that is written, unless it is beyond all doubles. -/
def ofWritten? (w : Written) : Option Number :=
  let (whole, left) := leading 0 w.whole
  if w.fraction.isEmpty && w.exponent.isNone && left == 0 &&
      (!w.negative || (whole != 0 && whole ≤ leastInteger.natAbs)) then
    some (.integer (if w.negative then -(whole : Int) else whole))
  else
    let (significand, unread) := leading whole w.fraction
    let places : Int := (w.fraction.length - unread : Nat)
    (double? significand (left - places + w.exponent.getD 0)).map fun x =>
      .real (if w.negative then -x else x)

end Number

end Automation.Json
