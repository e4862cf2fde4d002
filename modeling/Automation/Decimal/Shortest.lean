/-
Automation.Decimal.Shortest — the fewest decimal digits that read back.

Every double is the nearest one to a whole interval of reals, its ends
included exactly when its significand is even. `Binary.shortest` returns
a decimal inside that interval with as few digits as possible, and of
those the one nearest to the value; a `Tie` decides between two equally
near ones. It looks at the grids of one digit, two digits and so on, up
to seventeen, and on each grid only at the two neighbours of the value:
if a point of a grid lies in the interval, so does one of these two.
-/
import Automation.Decimal.Binary

namespace Automation.Decimal

/-- The decimal `digits · 10 ^ scale`. -/
structure Scaled where
  digits : Nat
  scale : Int
  deriving DecidableEq, Repr

/-- Which of two neighbours a value halfway between them goes to. -/
inductive Tie where
  | toEven
  | up
  deriving DecidableEq, Repr

/-- Whether the value halfway above `below` goes down to it. -/
def Tie.goesDown (below : Nat) : Tie → Bool
  | .toEven => below % 2 == 0
  | .up => false

/-- Divide out the zeros at the end of the digits, `fuel` of them at most. -/
def Scaled.trim : Nat → Scaled → Scaled
  | 0, d => d
  | fuel + 1, d =>
    if d.digits != 0 && d.digits % 10 == 0 then trim fuel ⟨d.digits / 10, d.scale + 1⟩ else d

/-- A value and the ends of its interval, as numerators of one
denominator. -/
structure Interval where
  low : Nat
  value : Nat
  high : Nat
  denominator : Nat
  /-- The ends belong to the interval. -/
  closed : Bool

/-- The reals that are nearer to this double than to any other. -/
def Binary.interval (b : Binary) : Interval :=
  let up := Nat.pow 2 (b.exponent - 2).toNat
  { low := (4 * b.significand - if b.lopsided then 1 else 2) * up
    value := 4 * b.significand * up
    high := (4 * b.significand + 2) * up
    denominator := Nat.pow 2 (2 - b.exponent).toNat
    closed := b.significand % 2 == 0 }

/-- Whether `n / denominator` lies in the interval. -/
def Interval.holds (i : Interval) (n : Nat) : Bool :=
  if i.closed then i.low ≤ n && n ≤ i.high else i.low < n && n < i.high

/-- The number of decimal digits before the point, or less the number of
zeros right after it: the value lies below `10 ^ magnitude`, and not
below a tenth of that. -/
def Interval.magnitude (i : Interval) : Int :=
  let length (n : Nat) : Int := (Nat.toDigits 10 n).length
  if i.denominator ≤ i.value then length (i.value / i.denominator)
  else 1 - length (i.denominator / i.value)

/-- The neighbour of the value on the grid of step `10 ^ scale` that lies
in the interval, the nearer one if both do, and the one that `tie` names
if both are equally near. -/
def Interval.onGrid? (i : Interval) (tie : Tie) (scale : Int) : Option Scaled :=
  let up := Nat.pow 10 (-scale).toNat
  let step := i.denominator * Nat.pow 10 scale.toNat
  let below := i.value * up / step
  let fits (d : Nat) : Bool :=
    { i with low := i.low * up, high := i.high * up }.holds (d * step)
  let rest := i.value * up % step
  let nearerBelow := 2 * rest < step || (2 * rest == step && tie.goesDown below)
  match fits below, fits (below + 1) with
  | true, true => some ⟨if nearerBelow then below else below + 1, scale⟩
  | true, false => some ⟨below, scale⟩
  | false, true => some ⟨below + 1, scale⟩
  | false, false => none

/-- The shortest decimal that reads back as this double. -/
def Binary.shortest (b : Binary) (tie : Tie) : Scaled :=
  if b.significand == 0 then ⟨0, 0⟩
  else
    let i := b.interval
    let grids := (List.range 17).map fun n => i.magnitude - (n + 1 : Nat)
    ((grids.findSome? (i.onGrid? tie)).getD ⟨0, 0⟩).trim 400

end Automation.Decimal
