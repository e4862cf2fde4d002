/-
Automation.Proofs.Engine.WaitTheorems — how the waits between attempts grow.

The waits of a policy are its backoff times the powers of its multiplier, cut
off at five minutes. All of it is computed in doubles, the powers by repeated
squaring, and still no wait is shorter than the one before: rounding keeps the
order, so a bit more in the exponent never makes less of the product
(`Retry.powerTimes_le_succ`), whether or not the power is too large for a
double.

Two things break the rule (`RetryPolicy.delays_grow`). A power that is too large is
infinite, and without a backoff the product is then no number, which counts as
longer than five minutes. And after 2³¹ attempts the exponent is negative: the
waits start again, and none of them exceeds the backoff.
-/
import Automation.Engine.Retry
import Automation.Proofs.Decimal.CountTheorems
import Automation.Proofs.Workflow.RoundTripTheorems

namespace Automation

open Automation.Decimal
open Automation.Json (Outline)

/-! ## Powers -/

namespace Retry

theorem powerTimes_zero (steps : Nat) (r a : Float) : powerTimes steps r a 0 = r := by
  cases steps <;> rfl

theorem powerTimes_even (steps : Nat) (r a : Float) (n : Nat) :
    powerTimes (steps + 1) r a (2 * n) = powerTimes steps r (a * a) n := by
  have hbit : (2 * n % 2 == 1) = false := by rw [Nat.mul_mod_right]; rfl
  have hrest : 2 * n / 2 = n := by omega
  rw [powerTimes, hbit, hrest, if_neg Bool.false_ne_true]
  split
  · next hzero => rw [beq_iff_eq.mp hzero, powerTimes_zero]
  · rfl

theorem powerTimes_odd (steps : Nat) (r a : Float) (n : Nat) :
    powerTimes (steps + 1) r a (2 * n + 1) = powerTimes steps (r * a) (a * a) n := by
  have hbit : ((2 * n + 1) % 2 == 1) = true := by rw [Nat.mul_add_mod]; rfl
  have hrest : (2 * n + 1) / 2 = n := by omega
  rw [powerTimes, hbit, hrest, if_pos rfl]
  split
  · next hzero => rw [beq_iff_eq.mp hzero, powerTimes_zero]
  · rfl

theorem one_le_powerTimes (steps : Nat) {r a : Float} (hr : 1 ≤ r) (ha : 1 ≤ a) (n : Nat) :
    1 ≤ powerTimes steps r a n := by
  induction steps generalizing r a n with
  | zero => exact hr
  | succ steps ih =>
    have hsquare := one_le_product ha ha
    obtain ⟨n, rfl | rfl⟩ := Nat.even_or_odd' n
    · rw [powerTimes_even]
      exact ih hr hsquare n
    · rw [powerTimes_odd]
      exact ih (one_le_product ha hr) hsquare n

theorem powerTimes_mono (steps : Nat) {r r' a : Float} (hr : 1 ≤ r) (h : r ≤ r') (ha : 1 ≤ a)
    (n : Nat) : powerTimes steps r a n ≤ powerTimes steps r' a n := by
  induction steps generalizing r r' a n with
  | zero => exact h
  | succ steps ih =>
    have hsquare := one_le_product ha ha
    obtain ⟨n, rfl | rfl⟩ := Nat.even_or_odd' n
    · rw [powerTimes_even, powerTimes_even]
      exact ih hr h hsquare n
    · rw [powerTimes_odd, powerTimes_odd]
      exact ih (one_le_product ha hr) (product_mono hr h ha (le_self ha)) hsquare n

/-- **One more in the exponent** never makes less of the power. What has been gathered
from the lower bits is at most one factor of the next higher one, so a carry does not
lose anything. -/
theorem powerTimes_le_succ (steps : Nat) {r a : Float} (hr : 1 ≤ r) (h : r ≤ a) {n : Nat}
    (hn : n + 1 < 2 ^ steps) : powerTimes steps r a n ≤ powerTimes steps 1 a (n + 1) := by
  induction steps generalizing r a n with
  | zero => omega
  | succ steps ih =>
    have ha : 1 ≤ a := le_through one_le_one hr h
    have hsquare := one_le_product ha ha
    obtain ⟨n, rfl | rfl⟩ := Nat.even_or_odd' n
    · rw [powerTimes_even, powerTimes_odd]
      exact powerTimes_mono steps hr (le_through hr h (le_product ha one_le_one)) hsquare n
    · rw [powerTimes_odd, show 2 * n + 1 + 1 = 2 * (n + 1) by omega, powerTimes_even]
      exact ih (one_le_product ha hr) (product_mono hr h ha (le_self ha)) (by omega)

theorem powerTimes_le (steps : Nat) {a : Float} (ha : 1 ≤ a) {m n : Nat} (h : m ≤ n)
    (hn : n < 2 ^ steps) : powerTimes steps 1 a m ≤ powerTimes steps 1 a n := by
  induction h with
  | refl => exact le_self (one_le_powerTimes steps one_le_one ha m)
  | step h ih =>
    exact le_through (one_le_powerTimes steps one_le_one ha m) (ih (Nat.lt_of_succ_lt hn))
      (powerTimes_le_succ steps one_le_one ha hn)

/-- The powers of one. -/
theorem counts_powerTimes_one (steps : Nat) {r a : Float} (hr : Counts r.toModel.unpack unity)
    (ha : Counts a.toModel.unpack unity) (n : Nat) :
    Counts (powerTimes steps r a n).toModel.unpack unity := by
  have hmul : ∀ {x y : Float}, Counts x.toModel.unpack unity → Counts y.toModel.unpack unity →
      Counts (x * y).toModel.unpack unity := fun hx hy =>
    times_unity counts_one ▸ hx.mul hy (.inl unity_lt_beyond) (.inl unity_lt_beyond)
  induction steps generalizing r a n with
  | zero => exact hr
  | succ steps ih =>
    obtain ⟨n, rfl | rfl⟩ := Nat.even_or_odd' n
    · rw [powerTimes_even]
      exact ih hr (hmul ha ha) n
    · rw [powerTimes_odd]
      exact ih (hmul hr ha) (hmul ha ha) n

/-! ## Cutting off -/

/-- The whole milliseconds of a wait. -/
def capped (ms : Float) : Nat :=
  (if ms < longest then ms else longest).toUInt64.toNat

theorem counts_longest : Counts longest.toModel.unpack (300000 * unity) := by
  have h := counts_ofNat (n := 300000) (by decide)
  rwa [nearest_of_lt (by decide)] at h

theorem capped_of_not_lt {ms : Float} (h : ¬ms < longest) : capped ms = 300000 := by
  have hvalue := counts_longest.toUInt64_eq
  rw [Nat.mul_div_cancel _ unity_pos] at hvalue
  rw [capped, if_neg h]
  exact hvalue (by decide)

theorem capped_eq {ms : Float} {n : Nat} (h : Counts ms.toModel.unpack n) :
    capped ms = min (n / unity) 300000 := by
  have hlt := h.lt_iff counts_longest
  rw [← Nat.div_lt_iff_lt_mul unity_pos] at hlt
  by_cases hless : ms < longest
  · have hsmall := hlt.mp hless
    rw [capped, if_pos hless, Nat.min_eq_left hsmall.le]
    exact h.toUInt64_eq (hsmall.trans (by decide))
  · rw [capped_of_not_lt hless, Nat.min_eq_right (Nat.not_lt.mp (mt hlt.mpr hless))]

/-- No number is not less than anything. -/
theorem capped_of_notANumber {ms : Float} (h : ms.toModel.unpack = .notANumber) :
    capped ms = 300000 := by
  refine capped_of_not_lt fun hlt => ?_
  have hfalse : Float.Model.UnpackedFloat.lt ms.toModel.unpack longest.toModel.unpack = true :=
    decide_eq_true_iff.mp hlt
  rw [h] at hfalse
  exact Bool.false_ne_true hfalse

end Retry

/-! ## The waits of a policy -/

namespace RetryPolicy

/-- The multiplier, or one where it is not more. -/
def base (policy : RetryPolicy) : Float :=
  if 1 ≤ policy.multiplier then policy.multiplier else 1

/-- What the backoff is multiplied by after an attempt. -/
def factor (policy : RetryPolicy) (attempt : Nat) : Float :=
  Retry.power policy.base (((attempt - 1 : Nat) : Int).bmod 4294967296)

theorem delay_eq (policy : RetryPolicy) (attempt : Nat) : policy.delay attempt =
    Retry.capped (Float.ofNat policy.backoff * policy.factor attempt) := rfl

section

variable {policy : RetryPolicy} {attempt : Nat}

theorem one_le_base (policy : RetryPolicy) : 1 ≤ policy.base := by
  unfold base
  split
  · next h => exact h
  · exact one_le_one

theorem factor_early (h : attempt ≤ 2 ^ 31) :
    policy.factor attempt = Retry.powerTimes 32 1 policy.base (attempt - 1) := by
  have hexponent : ((attempt - 1 : Nat) : Int).bmod 4294967296 = (attempt - 1 : Nat) :=
    Int.bmod_eq_of_le (by omega) (by omega)
  unfold factor Retry.power
  rw [hexponent, Int.natAbs_natCast]
  exact if_neg (by omega)

theorem factor_late (h : 2 ^ 31 < attempt) (h' : attempt < 2 ^ 32) :
    policy.factor attempt = 1 / Retry.powerTimes 32 1 policy.base (2 ^ 32 + 1 - attempt) := by
  have hexponent : ((attempt - 1 : Nat) : Int).bmod 4294967296 =
      -((2 ^ 32 + 1 - attempt : Nat) : Int) := by
    rw [Int.bmod_def]
    omega
  unfold factor Retry.power
  rw [hexponent, Int.natAbs_neg, Int.natAbs_natCast]
  exact if_pos (by omega)

end

/-! ### In counts -/

/-- The wait for a factor that is counted. -/
def waitOf (backoff k : Nat) : Nat :=
  min (times (nearest backoff * unity) k / unity) 300000

theorem waitOf_mono (backoff : Nat) {k k' : Nat} (h : k ≤ k') :
    waitOf backoff k ≤ waitOf backoff k' :=
  min_le_min_right _ (Nat.div_le_div_right (times_mono (Nat.le_refl _) h))

theorem min_nearest (n : Nat) : min (nearest n) 300000 = min n 300000 := by
  rcases Nat.lt_or_ge n (2 ^ 53) with hlt | hge
  · rw [nearest_of_lt hlt]
  · have hlarge := nearest_mono (m := 300000) (n := n) (by omega)
    rw [nearest_of_lt (by decide)] at hlarge
    rw [Nat.min_eq_right hlarge, Nat.min_eq_right (by omega)]

theorem waitOf_unity {backoff : Nat} (h : backoff < 2 ^ 64) :
    waitOf backoff unity = min backoff 300000 := by
  rw [waitOf, times_unity (counts_ofNat h), Nat.mul_div_cancel _ unity_pos, min_nearest]

section

variable {policy : RetryPolicy} {attempt later k k' : Nat}

/-- The wait after an attempt: nothing times infinity is no number. -/
theorem delay_of_counts (hbackoff : policy.backoff < 2 ^ 64)
    (hk : Counts (policy.factor attempt).toModel.unpack k) : policy.delay attempt =
      if policy.backoff = 0 ∧ ¬k < beyond then 300000 else waitOf policy.backoff k := by
  rw [delay_eq]
  obtain ⟨hmultiple, hlt⟩ := multiple_ofNat hbackoff
  split
  · next h =>
    obtain ⟨hzero, hinfinite⟩ := h
    refine Retry.capped_of_notANumber ?_
    rw [hzero, unpack_mul]
    generalize (policy.factor attempt).toModel.unpack = u at hk ⊢
    cases hk with
    | finite _ hlt => exact absurd hlt hinfinite
    | infinity => rfl
  · next h =>
    refine Retry.capped_eq (Counts.mul (.finite hmultiple hlt) hk (.inl hlt) ?_)
    refine or_iff_not_imp_left.mpr fun hinfinite => Nat.le_mul_of_pos_left unity (nearest_pos ?_)
    exact Nat.pos_of_ne_zero fun hzero => h ⟨hzero, hinfinite⟩

theorem delay_mono (hbackoff : policy.backoff < 2 ^ 64)
    (hk : Counts (policy.factor attempt).toModel.unpack k)
    (hk' : Counts (policy.factor later).toModel.unpack k') (h : k ≤ k') :
    policy.delay attempt ≤ policy.delay later := by
  have hcap : ∀ k, waitOf policy.backoff k ≤ 300000 := fun k => Nat.min_le_right _ _
  rw [delay_of_counts hbackoff hk, delay_of_counts hbackoff hk']
  split_ifs with hnone hnone'
  · exact Nat.le_refl _
  · exact absurd ⟨hnone.1, fun hlt => hnone.2 (h.trans_lt hlt)⟩ hnone'
  · exact hcap k
  · exact waitOf_mono _ h

/-! ### Early and late attempts -/

theorem one_le_factor (h : attempt ≤ 2 ^ 31) : 1 ≤ policy.factor attempt := by
  rw [factor_early h]
  exact Retry.one_le_powerTimes 32 one_le_one policy.one_le_base _

theorem factor_early_mono (h : attempt ≤ later) (hlater : later ≤ 2 ^ 31) :
    policy.factor attempt ≤ policy.factor later := by
  rw [factor_early (h.trans hlater), factor_early hlater]
  exact Retry.powerTimes_le 32 policy.one_le_base (by omega) (by omega)

/-- After 2³¹ attempts the factors grow up to one. -/
theorem factor_late_mono (hattempt : 2 ^ 31 < attempt) (h : attempt ≤ later)
    (hlater : later < 2 ^ 32) : ∃ k k', Counts (policy.factor attempt).toModel.unpack k ∧
      Counts (policy.factor later).toModel.unpack k' ∧ k ≤ k' ∧ k' ≤ unity := by
  have hpowers := Retry.powerTimes_le 32 policy.one_le_base
    (show 2 ^ 32 + 1 - later ≤ 2 ^ 32 + 1 - attempt by omega) (by omega)
  obtain ⟨n, n', hone, hle, hn, hn'⟩ := exists_counts_of_le
    (Retry.one_le_powerTimes 32 one_le_one policy.one_le_base (2 ^ 32 + 1 - later)) hpowers
  rw [factor_late hattempt (h.trans_lt hlater), factor_late (hattempt.trans_le h) hlater]
  exact ⟨_, _, hn'.inverse (hone.trans hle), hn.inverse hone,
    reciprocal_anti (unity_pos.trans_le hone) hle, reciprocal_le hone⟩

/-- Without a multiplier above one all factors are one. -/
theorem counts_factor (h : ¬1 < policy.multiplier) (hattempt : attempt < 2 ^ 32) :
    Counts (policy.factor attempt).toModel.unpack unity := by
  have hbase : Counts policy.base.toModel.unpack unity := by
    unfold base
    split
    · next hone =>
      obtain ⟨n, hle, hn⟩ := exists_counts hone
      rw [counts_one.lt_iff hn] at h
      rwa [Nat.le_antisymm hle (Nat.not_lt.mp h)]
    · exact counts_one
  rcases Nat.lt_or_ge (2 ^ 31) attempt with hlate | hearly
  · have hinverse := (Retry.counts_powerTimes_one 32 counts_one hbase
      (2 ^ 32 + 1 - attempt)).inverse (Nat.le_refl unity)
    rwa [reciprocal_unity, ← factor_late hlate hattempt] at hinverse
  · rw [factor_early hearly]
    exact Retry.counts_powerTimes_one 32 counts_one hbase _

theorem exists_counts_factor (policy : RetryPolicy) (h : attempt < 2 ^ 32) :
    ∃ k, Counts (policy.factor attempt).toModel.unpack k := by
  rcases Nat.lt_or_ge (2 ^ 31) attempt with hlate | hearly
  · obtain ⟨k, -, hk, -⟩ := factor_late_mono hlate (Nat.le_refl attempt) h
    exact ⟨k, hk⟩
  · obtain ⟨k, -, hk⟩ := exists_counts (policy.one_le_factor hearly)
    exact ⟨k, hk⟩

/-! ### The waits -/

theorem delay_le (hbackoff : policy.backoff < 2 ^ 64) (h : attempt < 2 ^ 32) :
    policy.delay attempt ≤ 300000 := by
  obtain ⟨k, hk⟩ := exists_counts_factor policy h
  rw [delay_of_counts hbackoff hk]
  split
  · exact Nat.le_refl _
  · exact Nat.min_le_right _ _

/-- A factor of one leaves the backoff. -/
theorem delay_of_unity (hbackoff : policy.backoff < 2 ^ 64)
    (h : Counts (policy.factor attempt).toModel.unpack unity) :
    policy.delay attempt = min policy.backoff 300000 := by
  rw [delay_of_counts hbackoff h, if_neg fun hnone => hnone.2 unity_lt_beyond,
    waitOf_unity hbackoff]

theorem le_delay_early (hbackoff : policy.backoff < 2 ^ 64) (h : attempt ≤ 2 ^ 31) :
    min policy.backoff 300000 ≤ policy.delay attempt := by
  obtain ⟨k, hone, hk⟩ := exists_counts (policy.one_le_factor h)
  rw [delay_of_counts hbackoff hk, ← waitOf_unity hbackoff]
  split
  · exact Nat.min_le_right _ _
  · exact waitOf_mono _ hone

theorem delay_early_mono (hbackoff : policy.backoff < 2 ^ 64) (h : attempt ≤ later)
    (hlater : later ≤ 2 ^ 31) : policy.delay attempt ≤ policy.delay later := by
  obtain ⟨k, k', -, hle, hk, hk'⟩ := exists_counts_of_le (policy.one_le_factor (h.trans hlater))
    (policy.factor_early_mono h hlater)
  exact delay_mono hbackoff hk hk' hle

theorem delay_late (hbackoff : policy.backoff < 2 ^ 64) (hattempt : 2 ^ 31 < attempt)
    (h : attempt ≤ later) (hlater : later < 2 ^ 32) :
    policy.delay attempt ≤ policy.delay later ∧
      policy.delay later ≤ min policy.backoff 300000 := by
  obtain ⟨k, k', hk, hk', hle, hone⟩ := factor_late_mono hattempt h hlater
  refine ⟨delay_mono hbackoff hk hk' hle, ?_⟩
  rw [delay_of_counts hbackoff hk', if_neg fun hnone => hnone.2 (hone.trans_lt unity_lt_beyond),
    ← waitOf_unity hbackoff]
  exact waitOf_mono _ hone

/-- Nothing times a number is nothing, and times infinity it is the longest wait. -/
theorem delay_of_no_backoff (hbackoff : policy.backoff = 0) (h : attempt < 2 ^ 32) :
    policy.delay attempt = if (policy.factor attempt).isInf then 300000 else 0 := by
  obtain ⟨k, hk⟩ := exists_counts_factor policy h
  have hnothing : waitOf 0 k = 0 := by
    rw [waitOf, nearest_of_lt (by decide), Nat.zero_mul, times, Nat.zero_mul, onGrid_zero,
      Nat.zero_min, Nat.zero_div, Nat.zero_min]
  rw [delay_of_counts (hbackoff ▸ by decide) hk, hbackoff, hnothing]
  exact if_congr ((and_iff_right rfl).trans hk.isInf_iff.symm) rfl rfl

end

/-- **The waits of a policy.** None is longer than five minutes, and for 2³¹ attempts
none is shorter than the one before, or than the backoff; if the multiplier is not
above one, all are the backoff. Two things break this rule. Without a backoff there is
no wait, unless the power is infinite: then it is the longest. And after 2³¹ attempts
the waits start once more, and none of them is longer than the backoff. -/
theorem delays_grow {o : Outline} {policy : RetryPolicy} (h : RetryPolicy.decode o = .ok policy) :
    (∀ attempt < 2 ^ 32, policy.delay attempt ≤ 300000) ∧
    (∀ attempt later, attempt ≤ later → later ≤ 2 ^ 31 →
      min policy.backoff 300000 ≤ policy.delay attempt ∧
      policy.delay attempt ≤ policy.delay later) ∧
    (¬1 < policy.multiplier → ∀ attempt < 2 ^ 32,
      policy.delay attempt = min policy.backoff 300000) ∧
    (policy.backoff = 0 → ∀ attempt < 2 ^ 32,
      policy.delay attempt = if (policy.factor attempt).isInf then 300000 else 0) ∧
    (∀ attempt later, 2 ^ 31 < attempt → attempt ≤ later → later < 2 ^ 32 →
      policy.delay attempt ≤ policy.delay later ∧
      policy.delay later ≤ min policy.backoff 300000) := by
  have hbackoff : policy.backoff < 2 ^ 64 := by
    have hmost : (policy.backoff : Int) ≤ 18446744073709551615 :=
      of_decide_eq_true (Bool.and_eq_true_iff.mp (RetryPolicy.yields_decode h).backoff).2
    omega
  exact ⟨fun _ hattempt => delay_le hbackoff hattempt,
    fun _ _ hattempt hlater => ⟨le_delay_early hbackoff (hattempt.trans hlater),
      delay_early_mono hbackoff hattempt hlater⟩,
    fun hmultiplier _ hattempt => delay_of_unity hbackoff (counts_factor hmultiplier hattempt),
    fun hnone _ hattempt => delay_of_no_backoff hnone hattempt,
    fun _ _ hattempt hle hlater => delay_late hbackoff hattempt hle hlater⟩

/-- A policy with a large backoff and three times as long a wait each time. -/
def slow : RetryPolicy := { maxAttempts := 5, backoff := 200000, multiplier := 3 }

theorem delays_grow_slow :
    RetryPolicy.decode (.ofValue slow.toJson) = .ok slow ∧
    (∀ attempt < 2 ^ 32, slow.delay attempt ≤ 300000) ∧
    (∀ attempt later, attempt ≤ later → later ≤ 2 ^ 31 →
      200000 ≤ slow.delay attempt ∧ slow.delay attempt ≤ slow.delay later) ∧
    slow.delay 1 = 200000 ∧ slow.delay 3 = 300000 := by
  have hdecode : RetryPolicy.decode (.ofValue slow.toJson) = .ok slow :=
    RetryPolicy.decode_toJson ⟨by decide, by decide⟩
  obtain ⟨hmost, hgrow, -⟩ := delays_grow hdecode
  exact ⟨hdecode, hmost, hgrow, by decide +kernel, by decide +kernel⟩

/-- A policy without a backoff, with powers that soon are infinite. -/
def idle : RetryPolicy := { maxAttempts := 4, backoff := 0, multiplier := 1e200 }

/-- So there may be a wait without a backoff, and the waits may get shorter again. -/
theorem not_always_delays_grow :
    (¬∀ o policy, RetryPolicy.decode o = .ok policy → policy.backoff = 0 →
      ∀ attempt, 1 ≤ attempt → attempt < 2 ^ 32 → policy.delay attempt = 0) ∧
    (¬∀ o policy, RetryPolicy.decode o = .ok policy →
      ∀ attempt later, 1 ≤ attempt → attempt ≤ later → later < 2 ^ 32 →
        policy.delay attempt ≤ policy.delay later) := by
  have hdecode : ∀ {policy : RetryPolicy}, policy.Sound →
      RetryPolicy.decode (.ofValue policy.toJson) = .ok policy := RetryPolicy.decode_toJson
  constructor
  · intro hnone
    have hwait : idle.delay 3 = 300000 := by decide +kernel
    have hnothing := hnone _ idle (hdecode ⟨by decide, by decide⟩) rfl 3 (by decide) (by decide)
    omega
  · intro hgrow
    have hearly : slow.delay (2 ^ 31) = 300000 := by decide +kernel
    have hlate : slow.delay (2 ^ 31 + 1) = 0 := by decide +kernel
    have hless := hgrow _ slow (hdecode ⟨by decide, by decide⟩) (2 ^ 31) (2 ^ 31 + 1) (by decide)
      (by decide) (by decide)
    omega

end RetryPolicy

end Automation
