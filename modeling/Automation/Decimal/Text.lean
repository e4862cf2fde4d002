/-
Automation.Decimal.Text — how a double is written.

The digits are the shortest that read back; a `Layout` says which of two
equally near decimals is taken, which decimals are written positionally,
and whether a whole number keeps its `.0`. There are two layouts:
`Layout.json` for every number in a JSON text, and `Layout.plain` for a
number inside a sentence.
-/
import Automation.Decimal.Shortest

namespace Automation.Decimal

/-- The decisions that the value of a double leaves open. -/
structure Layout where
  /-- Between two shortest decimals that are equally near to the value. -/
  tie : Tie
  /-- Decimals from `10 ^ least` up to below `10 ^ (most + 1)` are written
  positionally; all are when there are no bounds. -/
  positional : Option (Int × Int)
  /-- A whole number ends in `.0`. -/
  keepsPoint : Bool

/-- In JSON texts: the even one of two equally near decimals; positional
from `0.00001` up to sixteen digits before the point, else with an
exponent; a whole number keeps its point. -/
def Layout.json : Layout := ⟨.toEven, some (-5, 15), true⟩

/-- In sentences: the greater one of two equally near magnitudes; always
positional, and no point after a whole number. -/
def Layout.plain : Layout := ⟨.up, none, false⟩

private def zeros (n : Nat) : List Char :=
  List.replicate n '0'

/-- Positional text of `digits · 10 ^ scale`. -/
private def positional (layout : Layout) (digits : List Char) (scale : Int) : List Char :=
  if 0 ≤ scale then
    digits ++ zeros scale.toNat ++ if layout.keepsPoint then ['.', '0'] else []
  else
    let places := (-scale).toNat
    let padded := zeros (places + 1 - digits.length) ++ digits
    padded.take (padded.length - places) ++ '.' :: padded.drop (padded.length - places)

/-- Text with an exponent, which has a sign of either kind. -/
private def scientific (digits : List Char) (exponent : Int) : List Char :=
  let mantissa := match digits with
    | d :: e :: rest => d :: '.' :: e :: rest
    | short => short
  mantissa ++ 'e' :: (if exponent < 0 then '-' else '+') :: Nat.toDigits 10 exponent.natAbs

/-- The text of a finite double. -/
def render (layout : Layout) (x : Float) : String :=
  let b := Binary.ofFloat x
  let d := b.shortest layout.tie
  let digits := Nat.toDigits 10 d.digits
  let exponent := d.scale + digits.length - 1
  let body :=
    match layout.positional with
    | none => positional layout digits d.scale
    | some (least, most) =>
      if d.digits == 0 || (least ≤ exponent && exponent ≤ most) then
        positional layout digits d.scale
      else scientific digits exponent
  String.ofList (if b.negative then '-' :: body else body)

end Automation.Decimal
