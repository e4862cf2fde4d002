/-
Automation.Engine.Retry — how long to wait before the next attempt.

The waits form a geometric sequence of doubles, the first one being the
backoff of the policy. None is longer than five minutes, and a product
that is no number counts as longer. The exponent is kept in thirty-two
bits with a sign, so after 2³¹ attempts it turns negative.
-/
import Automation.Workflow.Basic

namespace Automation

namespace Retry

/-- The longest wait in milliseconds. -/
def longest : Float := 300000

/-- The product of `r` and the power `a ^ n` for `n` below `2 ^ steps`,
by repeated squaring from the lowest bit of `n` on. -/
def powerTimes : (steps : Nat) → (r a : Float) → (n : Nat) → Float
  | 0, r, _, _ => r
  | steps + 1, r, a, n =>
    let r := if n % 2 == 1 then r * a else r
    if n / 2 == 0 then r else powerTimes steps r (a * a) (n / 2)

/-- The power of a double to an exponent of thirty-two bits. -/
def power (a : Float) (exponent : Int) : Float :=
  let x := powerTimes 32 1 a exponent.natAbs
  if exponent < 0 then 1 / x else x

end Retry

/-- The milliseconds between an attempt and the next one; attempts are
counted from one. -/
def RetryPolicy.delay (policy : RetryPolicy) (attempt : Nat) : Nat :=
  let exponent := ((attempt - 1 : Nat) : Int).bmod 4294967296
  let base := if 1 ≤ policy.multiplier then policy.multiplier else 1
  let ms := Float.ofNat policy.backoff * Retry.power base exponent
  (if ms < Retry.longest then ms else Retry.longest).toUInt64.toNat

end Automation
