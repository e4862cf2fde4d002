/-
Automation.Proofs.Decimal.MultipleTheorems — doubles as multiples of the least
one.

Every double that is not negative and no infinity is a multiple of the least
positive one, `2 ^ -1074` (`Multiple`). They are compared as these multiples
are, and an operation rounds the exact result to the multiples that are
doubles (`multiple_roundWithAccuracy`). This holds with as large an exponent
as it takes: sixty-four bits do not come into it.
-/
import Automation.Proofs.Decimal.DoubleTheorems

namespace Automation.Decimal

open Float.Model Float.Model.UnpackedFloat

/-! ## Rounding to a double -/

/-- The number is this multiple of the least double, in the form in which
doubles are kept. -/
inductive Multiple : UnpackedFloat → Nat → Prop where
  | zero : Multiple (.zero .positive) 0
  | finite {m k : Nat} (hm : 0 < m) : m < 2 ^ 53 → 2 ^ 52 ≤ m ∨ k = 0 →
    Multiple (.finite .positive m (k - 1074) hm) (m * 2 ^ k)

/-- The exponent at which a magnitude is rounded. -/
theorem targetExponent_eq (l : Nat) {e : Int} {a b : Nat} (he : e + 1074 = a - b) :
    Format.binary64.targetExponent (l + 1 + e) = ((l + a - (b + 52) : Nat) : Int) - 1074 := by
  change max ((l : Int) + 1 + e - 53) (-1074) = _
  omega

/-- A magnitude on the grid is not shifted. -/
theorem shiftToTargetExponent_of_digits {m : Nat} (k : Nat) (hm : m < 2 ^ 53) :
    shiftToTargetExponent Format.binary64 m ((k : Int) - 1074) .exact =
      (⟨m, false, false⟩, (k : Int) - 1074) := by
  have hlog : m.log2 ≤ 52 := by
    rcases Nat.eq_zero_or_pos m with rfl | hpos
    · exact Nat.zero_le _
    · exact Nat.lt_succ_iff.mp ((Nat.log2_lt (Nat.ne_of_gt hpos)).mpr hm)
  have htarget := targetExponent_eq m.log2 (e := (k : Int) - 1074) (a := k) (b := 0) (by omega)
  have hshift : (((m.log2 + k - (0 + 52) : Nat) : Int) - 1074 - ((k : Int) - 1074)).toNat = 0 := by
    omega
  unfold shiftToTargetExponent shiftToExponent totalExponent
  dsimp only
  rw [htarget, hshift, Int.natCast_zero, Int.add_zero]
  rfl

/-- Rounding may carry into a fifty-fourth digit, and then one is dropped. -/
theorem shiftToTargetExponent_carry (k : Nat) :
    shiftToTargetExponent Format.binary64 (2 ^ 53) ((k : Int) - 1074) .exact =
      (⟨2 ^ 52, false, false⟩, ((k + 1 : Nat) : Int) - 1074) := by
  have htarget := targetExponent_eq 53 (e := (k : Int) - 1074) (a := k) (b := 0) (by omega)
  have hshift : (((53 + k - (0 + 52) : Nat) : Int) - 1074 - ((k : Int) - 1074)).toNat = 1 := by
    omega
  unfold shiftToTargetExponent shiftToExponent totalExponent
  rw [Nat.log2_two_pow]
  dsimp only
  rw [htarget, hshift]
  exact Prod.ext rfl (by dsimp only; omega)

/-- How many digits of a quotient with a power of two are dropped. -/
theorem log2_quotient {n d a b : Nat} (hd : 0 < d) (hdigits : a = 0 ∨ b = 0 ∧ 52 ≤ (n / d).log2) :
    (n * 2 ^ a / (d * 2 ^ b)).log2 - 52 = (n / d).log2 + a - (b + 52) := by
  rcases hdigits with rfl | ⟨rfl, hmany⟩
  · rw [Nat.pow_zero, Nat.mul_one, ← Nat.div_div_eq_div_mul, Nat.log2_eq_log_two,
      Nat.log2_eq_log_two, Nat.log_div_base_pow]
    omega
  · have hpos : n / d ≠ 0 := by
      intro hzero
      rw [hzero, Nat.log2_zero] at hmany
      omega
    obtain ⟨hlow, hhigh⟩ := (Nat.log2_eq_iff hpos).mp rfl
    rw [Nat.le_div_iff_mul_le hd] at hlow
    rw [Nat.div_lt_iff_lt_mul hd] at hhigh
    have hlog : (n * 2 ^ a / d).log2 = (n / d).log2 + a := by
      have hle : 2 ^ ((n / d).log2 + a) ≤ n * 2 ^ a / d := by
        rw [Nat.le_div_iff_mul_le hd, Nat.pow_add, Nat.mul_right_comm]
        exact Nat.mul_le_mul_right _ hlow
      refine (Nat.log2_eq_iff (Nat.ne_of_gt ((Nat.two_pow_pos _).trans_le hle))).mpr ⟨hle, ?_⟩
      rw [Nat.div_lt_iff_lt_mul hd, Nat.add_right_comm, Nat.pow_add, Nat.mul_right_comm]
      exact Nat.mul_lt_mul_of_pos_right hhigh (Nat.two_pow_pos a)
    rw [Nat.pow_zero, Nat.mul_one, hlog]

/-- **A quotient is rounded to the grid.** Where the exponent is not too small, it has
fifty-three digits before the point. -/
theorem multiple_roundWithAccuracy {n d : Nat} {e : Int} {a b : Nat} (hd : 0 < d)
    (he : e + 1074 = a - b) (hdigits : a = 0 ∨ b = 0 ∧ 52 ≤ (n / d).log2) :
    Multiple (roundWithAccuracy Format.binary64 .positive (n / d) e (accuracyOfFraction (n % d) d))
      (onGrid (n * 2 ^ a) (d * 2 ^ b)) := by
  obtain ⟨t, ht⟩ : ∃ t, (n / d).log2 + a - (b + 52) = t := ⟨_, rfl⟩
  obtain ⟨s, hs⟩ : ∃ s, s + a = t + b := ⟨t + b - a, by omega⟩
  have hlog := (log2_quotient hd hdigits).trans ht
  have hsame : halfEven (n * 2 ^ a) (d * 2 ^ b * 2 ^ t) = halfEven n (d * 2 ^ s) := by
    rw [Nat.mul_assoc, ← Nat.pow_add, Nat.add_comm b t, ← hs, Nat.pow_add, ← Nat.mul_assoc,
      halfEven_mul _ _ (Nat.two_pow_pos a)]
  obtain ⟨hle, hmany⟩ := digits_onGrid hlog
  have hrounded : shiftToTargetExponent Format.binary64 (n / d) e (accuracyOfFraction (n % d) d) =
      (quotient n (d * 2 ^ s), (t : Int) - 1074) := by
    have htarget := targetExponent_eq (n / d).log2 he
    have hshift : ((t : Int) - 1074 - e).toNat = s := by omega
    have hexponent : e + (s : Int) = t - 1074 := by omega
    unfold shiftToTargetExponent shiftToExponent totalExponent
    dsimp only
    rw [htarget, ht, hshift, ofMantissaAndAccuracy_eq hd, shiftRight_quotient hd, hexponent]
  rw [onGrid, hlog, hsame]
  rw [hsame] at hle hmany
  unfold roundWithAccuracy
  rw [hrounded]
  dsimp only
  rw [roundedMantissa_quotient (Nat.mul_pos hd (Nat.two_pow_pos s))]
  generalize halfEven n (d * 2 ^ s) = r at hle hmany ⊢
  rcases Nat.lt_or_eq_of_le hle with hlt | rfl
  · rw [shiftToTargetExponent_of_digits t hlt]
    dsimp only
    split_ifs with hzero
    · rw [hzero, Nat.zero_mul]
      exact .zero
    · exact .finite _ hlt hmany
  · have hcarry : 2 ^ 53 * 2 ^ t = 2 ^ 52 * 2 ^ (t + 1) := by
      rw [← Nat.pow_add, ← Nat.pow_add, Nat.add_right_comm 52 1 t, Nat.add_assoc]
    rw [shiftToTargetExponent_carry, hcarry]
    dsimp only
    rw [dif_neg (by decide)]
    exact .finite _ (by decide) (.inl (Nat.le_refl _))

/-! ## Comparing -/

/-- The multiple with the smaller exponent is smaller. -/
theorem digits_lt {m m' k k' : Nat} (hm : m < 2 ^ 53) (hdigits : 2 ^ 52 ≤ m' ∨ k' = 0)
    (hlt : k < k') : m * 2 ^ k < m' * 2 ^ k' := by
  have hlow : 2 ^ 52 ≤ m' := hdigits.resolve_right (Nat.ne_of_gt (Nat.zero_lt_of_lt hlt))
  calc m * 2 ^ k < 2 ^ 53 * 2 ^ k := Nat.mul_lt_mul_of_pos_right hm (Nat.two_pow_pos k)
    _ = 2 ^ 52 * 2 ^ (k + 1) := by ring
    _ ≤ m' * 2 ^ k' := Nat.mul_le_mul hlow (Nat.pow_le_pow_right Nat.two_pos hlt)

theorem Multiple.compare_eq {u v : UnpackedFloat} {m n : Nat} (hu : Multiple u m)
    (hv : Multiple v n) : u.compare v = some (compare m n) := by
  cases hu with
  | zero =>
    cases hv with
    | zero => rfl
    | finite hpos =>
      rw [Nat.compare_eq_lt.mpr (Nat.mul_pos hpos (Nat.two_pow_pos _))]
      rfl
  | @finite m k hpos hm hdigits =>
    cases hv with
    | zero =>
      rw [Nat.compare_eq_gt.mpr (Nat.mul_pos hpos (Nat.two_pow_pos _))]
      rfl
    | @finite m' k' hpos' hm' hdigits' =>
      refine congrArg some ?_
      rcases Nat.lt_trichotomy k k' with hlt | rfl | hgt
      · rw [Int.compare_eq_lt.mpr (by omega), Nat.compare_eq_lt.mpr (digits_lt hm hdigits' hlt)]
        rfl
      · rw [Int.compare_eq_eq.mpr rfl]
        exact compare_of_multiples (k := 2 ^ k) (c := 1) (Nat.two_pow_pos k) Nat.one_pos
          (Nat.mul_one _).symm (Nat.mul_one _).symm
      · rw [Int.compare_eq_gt.mpr (by omega), Nat.compare_eq_gt.mpr (digits_lt hm' hdigits hgt)]
        rfl

/-! ## Operations -/

/-- How often the least double goes into one. -/
@[irreducible] def unity : Nat := 2 ^ 1074

/-- The exponent gets a name, so that nothing computes the power. -/
theorem exists_unity_eq : ∃ c, c = 1074 ∧ unity = 2 ^ c := by
  obtain ⟨c, hc⟩ : ∃ c, c = 1074 := ⟨_, rfl⟩
  refine ⟨c, hc, ?_⟩
  unfold unity
  rw [hc]

theorem unity_pos : 0 < unity := by
  obtain ⟨c, -, hunity⟩ := exists_unity_eq
  rw [hunity]
  exact Nat.two_pow_pos c

/-- What a power of two and one have in common cancels. -/
theorem exists_common (k : Nat) : ∃ a b j, k = a + j ∧ unity = 2 ^ (b + j) ∧
    (k : Int) - 1074 = a - b ∧ (a = 0 ∨ b = 0) := by
  obtain ⟨c, hc, hunity⟩ := exists_unity_eq
  refine ⟨k - c, c - k, min c k, by omega, ?_, by omega, by omega⟩
  rw [hunity]
  congr 1
  omega

/-- The product of two doubles is rounded to the grid. -/
theorem Multiple.mul {u v : UnpackedFloat} {m n : Nat} (hu : Multiple u m) (hv : Multiple v n) :
    Multiple (UnpackedFloat.mul Format.binary64 u v) (onGrid (m * n) unity) := by
  cases hu with
  | zero =>
    rw [Nat.zero_mul, onGrid_zero]
    cases hv <;> exact .zero
  | @finite m k hpos hm hdigits =>
    cases hv with
    | zero =>
      rw [Nat.mul_zero, onGrid_zero]
      exact .zero
    | @finite m' k' hpos' hm' hdigits' =>
      obtain ⟨a, b, j, ha, hb, he, hab⟩ := exists_common (k + k')
      have hgrid : onGrid (m * 2 ^ k * (m' * 2 ^ k')) unity =
          onGrid (m * m' * 2 ^ a) (1 * 2 ^ b) := by
        rw [← onGrid_mul (m * m' * 2 ^ a) (1 * 2 ^ b) (Nat.two_pow_pos j), hb, Nat.pow_add,
          Nat.one_mul, Nat.mul_mul_mul_comm, ← Nat.pow_add, ha, Nat.pow_add, ← Nat.mul_assoc]
      have hmany : a = 0 ∨ b = 0 ∧ 52 ≤ (m * m' / 1).log2 := by
        refine (Nat.eq_zero_or_pos a).imp_right fun hapos => ⟨by omega, ?_⟩
        rw [Nat.div_one, Nat.le_log2 (Nat.ne_of_gt (Nat.mul_pos hpos hpos'))]
        rcases hdigits with hlow | rfl
        · exact hlow.trans (Nat.le_mul_of_pos_right m hpos')
        · exact (hdigits'.resolve_right (by omega)).trans (Nat.le_mul_of_pos_left m' hpos)
      have hrounded := multiple_roundWithAccuracy (n := m * m') (d := 1)
        (e := (k - 1074 : Int) + (k' - 1074)) Nat.one_pos (by omega) hmany
      rw [hgrid, mul_finite]
      rwa [Nat.div_one, Nat.mod_one] at hrounded

/-- One is divided by a double of fifty-three digits. -/
theorem Multiple.inverse {m k : Nat} (hm : 0 < m) (hlow : 2 ^ 52 ≤ m) (hhigh : m < 2 ^ 53)
    (hk : k < 2046) : Multiple (UnpackedFloat.div Format.binary64
      (.finite .positive (2 ^ 52) (-52) (by decide)) (.finite .positive m (k - 1074) hm))
      (onGrid (unity * unity) (m * 2 ^ k)) := by
  obtain ⟨c, hc, hunity⟩ := exists_unity_eq
  -- the dividend gets as many digits more as make fifty-three of the quotient
  obtain ⟨s, a, hs, hs53, ha⟩ : ∃ s a, 52 + s + a + k = c + c ∧ s ≤ 53 ∧ (a = 0 ∨ s = 53) := by
    rcases Nat.lt_or_ge k 2044 with hlt | hge
    · exact ⟨53, 2043 - k, by omega, Nat.le_refl _, .inr rfl⟩
    · exact ⟨2096 - k, 0, by omega, by omega, .inl rfl⟩
  have hlog : m.log2 = 52 := (Nat.log2_eq_iff (Nat.ne_of_gt hm)).mpr ⟨hlow, hhigh⟩
  have hdigits : a = 0 ∨ 0 = 0 ∧ 52 ≤ (2 ^ (52 + s) / m).log2 := by
    refine ha.imp_right fun hs => ⟨rfl, ?_⟩
    have hle : 2 ^ 52 ≤ 2 ^ (52 + s) / m := by
      rw [Nat.le_div_iff_mul_le hm, Nat.pow_add, hs]
      exact Nat.mul_le_mul_left _ hhigh.le
    exact (Nat.le_log2 (Nat.ne_of_gt ((Nat.two_pow_pos 52).trans_le hle))).mpr hle
  have hgrid : onGrid (unity * unity) (m * 2 ^ k) = onGrid (2 ^ (52 + s) * 2 ^ a) (m * 2 ^ 0) := by
    rw [← onGrid_mul _ (m * 2 ^ 0) (Nat.two_pow_pos k), Nat.pow_zero, Nat.mul_one, hunity,
      ← Nat.pow_add, ← Nat.pow_add, ← Nat.pow_add, hs]
  have hrounded := multiple_roundWithAccuracy (n := 2 ^ (52 + s)) (d := m) (e := a - 1074)
    (a := a) (b := 0) hm (by omega) hdigits
  have hcore : divCore Format.binary64 (2 ^ 52) (-52) m (k - 1074) =
      (2 ^ (52 + s) / m, (a : Int) - 1074, accuracyOfFraction (2 ^ (52 + s) % m) m) := by
    have htarget : min (-52 - ((k : Int) - 1074)) (Format.binary64.targetExponent
        ((52 : Nat) + 1 + -52 - ((52 : Nat) + 1 + ((k : Int) - 1074)))) = (a : Int) - 1074 := by
      change min _ (max (_ - 53) (-1074)) = _
      omega
    have hshift : (-52 - ((k : Int) - 1074) - ((a : Int) - 1074)).toNat = s := by omega
    unfold divCore totalExponent
    rw [Nat.log2_two_pow, hlog]
    dsimp only
    rw [htarget, hshift, Nat.shiftLeft_eq, ← Nat.pow_add]
  rw [hgrid]
  change Multiple (roundWithAccuracy _ _ (divCore Format.binary64 (2 ^ 52) (-52) m (k - 1074)).1
    (divCore Format.binary64 (2 ^ 52) (-52) m (k - 1074)).2.1
    (divCore Format.binary64 (2 ^ 52) (-52) m (k - 1074)).2.2) _
  rw [hcore]
  exact hrounded

/-- A double is cut off behind the point. -/
theorem Multiple.toInt_eq {u : UnpackedFloat} {n : Nat} (h : Multiple u n) (low high : Int) :
    u.toInt low high = (n / unity : Nat) := by
  cases h with
  | zero =>
    rw [Nat.zero_div]
    rfl
  | @finite m k hpos hm hdigits =>
    obtain ⟨a, b, j, ha, hb, he, hab⟩ := exists_common k
    have hvalue : m * 2 ^ k / unity = m * 2 ^ a / (1 * 2 ^ b) := by
      rw [← Nat.mul_div_mul_right _ (1 * 2 ^ b) (Nat.two_pow_pos j), ha, hb, Nat.pow_add,
        Nat.pow_add, Nat.one_mul, Nat.mul_assoc]
    have hup : ((k : Int) - 1074 - 0).toNat = a := by omega
    have hdown : (0 - ((k : Int) - 1074 - a)).toNat = b := by omega
    change roundToInt .positive m (k - 1074) = _
    unfold roundToInt decreaseExponent shiftToExponent
    dsimp only
    rw [hup, hdown, hvalue, Nat.shiftLeft_eq]
    change (((⟨m * 2 ^ a, false, false⟩ : ExtendedMantissa) >>> b).mantissa : Int) = _
    rw [← quotient_one, shiftRight_quotient Nat.one_pos]
    rfl

end Automation.Decimal
