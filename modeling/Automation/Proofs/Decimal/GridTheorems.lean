/-
Automation.Proofs.Decimal.GridTheorems — numbers of fifty-three digits.

A quotient is rounded to the nearest number of fifty-three binary digits, a tie
to the even one; where that many digits reach behind the point, to the nearest
whole number (`onGrid`). Rounding keeps the order (`onGrid_mono`) and does not
move what is rounded already (`onGrid_of_digits`).

A quotient is rounded by dropping binary digits behind it one at a time. What
was dropped is remembered as two bits only, and these are enough: at each step
they are those of the quotient by twice as much (`shiftRight_quotient`).
-/
import Mathlib

namespace Automation.Decimal

open Float.Model Float.Model.UnpackedFloat

/-! ## Rounding to a whole number -/

/-- A quotient, rounded to the nearest whole number, and to the even one of
two that are equally near. -/
def halfEven (n d : Nat) : Nat :=
  if 2 * (n % d) < d then n / d
  else if d < 2 * (n % d) then n / d + 1
  else n / d + n / d % 2

theorem le_halfEven (n d : Nat) : n / d ≤ halfEven n d := by
  unfold halfEven
  split
  · exact Nat.le_refl _
  · split <;> omega

theorem halfEven_le (n d : Nat) : halfEven n d ≤ n / d + 1 := by
  unfold halfEven
  split
  · omega
  · split <;> omega

theorem halfEven_mul (n d : Nat) {c : Nat} (hc : 0 < c) :
    halfEven (n * c) (d * c) = halfEven n d := by
  unfold halfEven
  rw [Nat.mul_mod_mul_right, Nat.mul_div_mul_right n d hc, ← Nat.mul_assoc]
  simp only [Nat.mul_lt_mul_right hc]

/-- A multiple is not rounded. -/
theorem halfEven_mul_self (n : Nat) {d : Nat} (hd : 0 < d) : halfEven (n * d) d = n := by
  unfold halfEven
  rw [Nat.mul_mod_left, if_pos (by omega), Nat.mul_div_cancel n hd]

/-- Rounding keeps the order. -/
theorem halfEven_mono {m n d : Nat} (h : m ≤ n) : halfEven m d ≤ halfEven n d := by
  have hq : m / d ≤ n / d := Nat.div_le_div_right h
  rcases Nat.lt_or_eq_of_le hq with hlt | heq
  · exact Nat.le_trans (halfEven_le m d) (Nat.le_trans hlt (le_halfEven n d))
  · have hm := Nat.div_add_mod m d
    have hn := Nat.div_add_mod n d
    rw [heq] at hm
    have hmod : m % d ≤ n % d := by omega
    unfold halfEven
    rw [heq]
    split_ifs <;> omega

/-! ## Rounding to fifty-three digits -/

theorem log2_mono {m n : Nat} (h : m ≤ n) : m.log2 ≤ n.log2 := by
  rcases Nat.eq_zero_or_pos m with rfl | hm
  · exact Nat.zero_le _
  · rw [Nat.le_log2 (by omega)]
    exact (Nat.log2_self_le (Nat.ne_of_gt hm)).trans h

theorem log2_mul_two_pow {n : Nat} (hn : 0 < n) (j : Nat) : (n * 2 ^ j).log2 = n.log2 + j := by
  obtain ⟨hlow, hhigh⟩ := (Nat.log2_eq_iff (Nat.ne_of_gt hn)).mp rfl
  have hpos : 0 < 2 ^ j := Nat.two_pow_pos j
  refine (Nat.log2_eq_iff (Nat.ne_of_gt (Nat.mul_pos hn hpos))).mpr ⟨?_, ?_⟩
  · rw [Nat.pow_add]
    exact Nat.mul_le_mul_right _ hlow
  · rw [Nat.add_right_comm, Nat.pow_add]
    exact Nat.mul_lt_mul_of_pos_right hhigh hpos

/-- A quotient rounded to fifty-three binary digits, and to a whole number if
it has fewer. -/
def onGrid (n d : Nat) : Nat :=
  halfEven n (d * 2 ^ ((n / d).log2 - 52)) * 2 ^ ((n / d).log2 - 52)

theorem onGrid_zero (d : Nat) : onGrid 0 d = 0 := by
  simp [onGrid, halfEven]

theorem onGrid_mul (n d : Nat) {c : Nat} (hc : 0 < c) : onGrid (n * c) (d * c) = onGrid n d := by
  unfold onGrid
  rw [Nat.mul_div_mul_right n d hc, Nat.mul_right_comm, halfEven_mul _ _ hc]

/-- Rounding does not reach the next power of two but one. -/
theorem onGrid_le (n d : Nat) : onGrid n d ≤ 2 ^ ((n / d).log2 + 1) := by
  obtain ⟨s, hs⟩ : ∃ s, (n / d).log2 - 52 = s := ⟨_, rfl⟩
  have hpow : 2 ^ ((n / d).log2 + 1) = 2 ^ ((n / d).log2 + 1 - s) * 2 ^ s := by
    rw [← Nat.pow_add]
    congr 1
    omega
  have hlt : n / d / 2 ^ s < 2 ^ ((n / d).log2 + 1 - s) := by
    rw [Nat.div_lt_iff_lt_mul (Nat.two_pow_pos s), ← hpow]
    exact Nat.lt_log2_self
  unfold onGrid
  rw [hs, hpow]
  refine Nat.mul_le_mul_right _ ((halfEven_le _ _).trans ?_)
  rw [← Nat.div_div_eq_div_mul]
  exact hlt

/-- Rounding does not go below a power of two. -/
theorem le_onGrid {n d : Nat} (hn : 0 < n / d) : 2 ^ (n / d).log2 ≤ onGrid n d := by
  obtain ⟨s, hs⟩ : ∃ s, (n / d).log2 - 52 = s := ⟨_, rfl⟩
  have hpow : 2 ^ (n / d).log2 = 2 ^ ((n / d).log2 - s) * 2 ^ s := by
    rw [← Nat.pow_add]
    congr 1
    omega
  unfold onGrid
  rw [hs, hpow]
  refine Nat.mul_le_mul_right _ (Nat.le_trans ?_ (le_halfEven _ _))
  rw [← Nat.div_div_eq_div_mul, Nat.le_div_iff_mul_le (Nat.two_pow_pos s), ← hpow]
  exact Nat.log2_self_le (Nat.ne_of_gt hn)

/-- Rounding keeps the order. -/
theorem onGrid_mono_left {m n : Nat} (d : Nat) (h : m ≤ n) : onGrid m d ≤ onGrid n d := by
  rcases Nat.lt_or_eq_of_le (log2_mono (Nat.div_le_div_right (c := d) h)) with hlt | heq
  · have hpos : 0 < n / d := by
      refine Nat.pos_of_ne_zero fun hzero => ?_
      rw [hzero, Nat.log2_zero] at hlt
      exact Nat.not_lt_zero _ hlt
    calc onGrid m d ≤ 2 ^ ((m / d).log2 + 1) := onGrid_le m d
      _ ≤ 2 ^ (n / d).log2 := Nat.pow_le_pow_right Nat.two_pos hlt
      _ ≤ onGrid n d := le_onGrid hpos
  · unfold onGrid
    rw [heq]
    exact Nat.mul_le_mul_right _ (halfEven_mono h)

theorem onGrid_mono {m n d d' : Nat} (hd : 0 < d) (hd' : 0 < d') (h : m * d' ≤ n * d) :
    onGrid m d ≤ onGrid n d' := by
  rw [← onGrid_mul m d hd', ← onGrid_mul n d' hd, Nat.mul_comm d' d]
  exact onGrid_mono_left _ h

/-- Fifty-three digits and zeros behind them are not rounded. -/
theorem onGrid_of_digits {m d : Nat} (k : Nat) (hm : m < 2 ^ 53) (hd : 0 < d) :
    onGrid (m * 2 ^ k * d) d = m * 2 ^ k := by
  obtain ⟨s, hs⟩ : ∃ s, (m * 2 ^ k).log2 - 52 = s := ⟨_, rfl⟩
  have hle : s ≤ k := by
    rcases Nat.eq_zero_or_pos m with rfl | hpos
    · simp at hs
      omega
    · have := (Nat.log2_lt (Nat.ne_of_gt hpos)).mpr hm
      rw [log2_mul_two_pow hpos] at hs
      omega
  have hpow : m * 2 ^ k = m * 2 ^ (k - s) * 2 ^ s := by
    rw [Nat.mul_assoc, ← Nat.pow_add, Nat.sub_add_cancel hle]
  unfold onGrid
  rw [Nat.mul_div_cancel _ hd, hs, hpow, Nat.mul_assoc _ (2 ^ s) d, Nat.mul_comm (2 ^ s) d,
    halfEven_mul_self _ (Nat.mul_pos hd (Nat.two_pow_pos s))]

/-- The digits of a rounded quotient: fifty-three, or a carry into one more, and fewer
only if none is dropped. -/
theorem digits_onGrid {n d t : Nat} (ht : (n / d).log2 - 52 = t) :
    halfEven n (d * 2 ^ t) ≤ 2 ^ 53 ∧ (2 ^ 52 ≤ halfEven n (d * 2 ^ t) ∨ t = 0) := by
  have hbelow := onGrid_le n d
  rw [onGrid, ht] at hbelow
  constructor
  · refine Nat.le_of_mul_le_mul_right (hbelow.trans ?_) (Nat.two_pow_pos t)
    rw [← Nat.pow_add]
    exact Nat.pow_le_pow_right Nat.two_pos (by omega)
  · refine (Nat.eq_zero_or_pos t).symm.imp_left fun hpos => ?_
    have hwhole : 0 < n / d := by
      refine Nat.pos_of_ne_zero fun hzero => ?_
      rw [hzero, Nat.log2_zero] at ht
      omega
    have habove := le_onGrid hwhole
    rw [onGrid, ht, show (n / d).log2 = 52 + t by omega, Nat.pow_add] at habove
    exact Nat.le_of_mul_le_mul_right habove (Nat.two_pow_pos t)

/-! ## Quotients in the making -/

/-- The whole part of a quotient, and what is remembered of the rest: whether it
is at least a half, and whether it is neither nothing nor a half. -/
def quotient (n d : Nat) : ExtendedMantissa where
  mantissa := n / d
  roundBit := decide (d ≤ 2 * (n % d))
  stickyBit := decide (2 * (n % d) ≠ 0 ∧ 2 * (n % d) ≠ d)

theorem quotient_one (n : Nat) : quotient n 1 = ⟨n, false, false⟩ := by
  simp [quotient, Nat.mod_one]

theorem ofMantissaAndAccuracy_eq {n d : Nat} (hd : 0 < d) :
    .ofMantissaAndAccuracy (n / d) (accuracyOfFraction (n % d) d) = quotient n d := by
  unfold accuracyOfFraction quotient
  by_cases hzero : n % d = 0
  · simp [hzero, ExtendedMantissa.ofMantissaAndAccuracy]
    omega
  · rw [if_neg hzero]
    rcases Nat.lt_trichotomy (2 * (n % d)) d with hlt | heq | hgt
    · rw [Nat.compare_eq_lt.mpr hlt]
      simp [ExtendedMantissa.ofMantissaAndAccuracy]
      omega
    · rw [Nat.compare_eq_eq.mpr heq]
      simp [ExtendedMantissa.ofMantissaAndAccuracy]
      omega
    · rw [Nat.compare_eq_gt.mpr hgt]
      simp [ExtendedMantissa.ofMantissaAndAccuracy]
      omega

/-- Dropping a digit halves the quotient. -/
theorem shiftRightOne_quotient {n d : Nat} (hd : 0 < d) :
    (quotient n d).shiftRightOne = quotient n (d * 2) := by
  have hdiv : n / d / 2 = n / (d * 2) := Nat.div_div_eq_div_mul n d 2
  have hmod : n % (d * 2) = n % d + d * (n / d % 2) := Nat.mod_mul
  have hlt := Nat.mod_lt n hd
  have hround : (n / d % 2 != 0) = decide (d * 2 ≤ 2 * (n % d + d * (n / d % 2))) := by
    rcases Nat.mod_two_eq_zero_or_one (n / d) with hb | hb <;> simp [hb] <;> omega
  have hsticky : (decide (d ≤ 2 * (n % d)) || decide (2 * (n % d) ≠ 0 ∧ 2 * (n % d) ≠ d)) =
      decide (2 * (n % d + d * (n / d % 2)) ≠ 0 ∧ 2 * (n % d + d * (n / d % 2)) ≠ d * 2) := by
    rw [Bool.eq_iff_iff, Bool.or_eq_true]
    simp only [decide_eq_true_iff]
    rcases Nat.mod_two_eq_zero_or_one (n / d) with hb | hb <;> rw [hb] <;> omega
  unfold ExtendedMantissa.shiftRightOne quotient
  rw [← hdiv, hmod, ← hround, ← hsticky]

theorem shiftRight_quotient {n d : Nat} (hd : 0 < d) (s : Nat) :
    quotient n d >>> s = quotient n (d * 2 ^ s) := by
  induction s with
  | zero => rw [Nat.pow_zero, Nat.mul_one]; rfl
  | succ s ih =>
    change (quotient n d >>> s).shiftRightOne = _
    rw [ih, shiftRightOne_quotient (Nat.mul_pos hd (Nat.two_pow_pos s)), Nat.pow_succ,
      Nat.mul_assoc]

/-- What the dropped digits do to the digits that stay. -/
theorem roundedMantissa_eq (q : Nat) (half rest : Bool) :
    (⟨q, half, rest⟩ : ExtendedMantissa).roundedMantissa =
      if half then if rest then q + 1 else q + q % 2 else q := by
  cases half <;> cases rest <;> rfl

theorem roundedMantissa_quotient {n d : Nat} (hd : 0 < d) :
    (quotient n d).roundedMantissa = halfEven n d := by
  have hlt := Nat.mod_lt n hd
  unfold quotient halfEven
  rw [roundedMantissa_eq]
  split_ifs <;> simp_all <;> omega

end Automation.Decimal
