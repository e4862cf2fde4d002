/-
Automation.Decimal.Binary — a double as a significand and a power of two.

`Binary.ofFloat` takes the sixty-four bits of a finite double apart:
its magnitude is `significand · 2 ^ exponent`, exactly. Everything that
depends on the exact value of a double (its shortest text, rounding to a
whole number) is computed from this form in natural numbers.
-/

namespace Automation.Decimal

/-- The exact value of a finite double. -/
structure Binary where
  negative : Bool
  significand : Nat
  exponent : Int
  /-- The next smaller double is only half as far away as the next larger
  one: the significand is the least of its power of two. -/
  lopsided : Bool

/-- The leading bit of a significand, which a double does not store:
2⁵². -/
def leadingBit : Nat := 4503599627370496

/-- The exact value of a double. Its bits are a sign, eleven bits for the
exponent, and the fifty-two bits of the significand behind the leading
one. -/
def Binary.ofFloat (x : Float) : Binary :=
  let bits := x.toBits.toNat
  let field := bits / leadingBit % 2048
  let fraction := bits % leadingBit
  { negative := bits / leadingBit / 2048 == 1
    significand := if field == 0 then fraction else fraction + leadingBit
    exponent := (max field 1 : Nat) - 1075
    lopsided := fraction == 0 && 1 < field }

/-- The magnitude rounded to the nearest whole number, a half upwards. -/
def Binary.nearest (b : Binary) : Nat :=
  if 0 ≤ b.exponent then b.significand * Nat.pow 2 b.exponent.toNat
  else
    let half := Nat.pow 2 ((-b.exponent).toNat - 1)
    (b.significand + half) / (2 * half)

end Automation.Decimal
