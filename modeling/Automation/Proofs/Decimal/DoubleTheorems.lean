/-
Automation.Proofs.Decimal.DoubleTheorems — integers as doubles.

A double has fifty-three binary digits. An integer of up to sixty-four bits
becomes the nearest double (`equals_ofInt`): its magnitude is rounded to
fifty-three digits, a tie to the even one, and so it is `nearestInt` of the
integer. Doubles are then compared as these integers are
(`beq_ofInt`, `lt_ofInt`). The rounding keeps the order, moves nothing below
`2 ^ 53` and nothing to below it, so a smaller integer never shares its double
(`nearestInt_inj`).

A magnitude is rounded by dropping digits behind it, down to fifty-three. The
rounding may carry into one more digit, never into two
(`roundWithAccuracy_eq`).
-/
import Automation.Json.Number
import Automation.Proofs.Decimal.GridTheorems

namespace Automation.Decimal

open Float.Model Float.Model.UnpackedFloat

/-! ## Doubles in their normal form -/

/-- The magnitude `m · 2 ^ e` in the normal form of a double, not too small and not too
large: it has fifty-three binary digits. -/
structure Normal (m : Nat) (e : Int) : Prop where
  low : 2 ^ 52 ≤ m
  high : m < 2 ^ 53
  least : -52 ≤ e
  most : e ≤ 900

theorem Normal.pos {m : Nat} {e : Int} (h : Normal m e) : 0 < m :=
  Nat.lt_of_lt_of_le (Nat.two_pow_pos 52) h.low

theorem Normal.log2 {m : Nat} {e : Int} (h : Normal m e) : m.log2 = 52 :=
  (Nat.log2_eq_iff (Nat.ne_of_gt h.pos)).mpr ⟨h.low, h.high⟩

/-- A double of fifty-three digits is kept by its sixty-four bits. -/
theorem unpack_pack {m : Nat} {e : Int} (hpos : 0 < m) (hlow : 2 ^ 52 ≤ m) (hhigh : m < 2 ^ 53)
    (hleast : -1074 ≤ e) (hmost : e ≤ 971) (sign : Sign) :
    (Float.Model.pack (.finite sign m e hpos)).unpack = .finite sign m e hpos := by
  have hlog : m.log2 = 52 := (Nat.log2_eq_iff (Nat.ne_of_gt hpos)).mpr ⟨hlow, hhigh⟩
  -- the exponent is stored as a number from one on
  obtain ⟨b, hb⟩ : ∃ b : Nat, e + 1023 + 52 = b := Int.eq_ofNat_of_zero_le (by omega)
  have hbits : (BitVec.ofNat 11 b).toNat = b := by
    rw [BitVec.toNat_ofNat, Nat.mod_eq_of_lt (by omega)]
  have hne : ∀ c : BitVec 11, c.toNat ≠ b → BitVec.ofNat 11 b ≠ c := by
    rintro c hc rfl
    exact hc hbits
  have hnotAll : BitVec.ofNat 11 b ≠ -1#11 := hne _ (by change 2047 ≠ b; omega)
  have hnotNone : BitVec.ofNat 11 b ≠ 0#11 := hne _ (by change 0 ≠ b; omega)
  have hdigits : (1#1 ++ BitVec.ofNat 52 m).toNat = m := by
    rw [BitVec.toNat_append, ← Nat.shiftLeft_add_eq_or_of_lt (BitVec.isLt _), BitVec.toNat_ofNat]
    simp [Nat.shiftLeft_eq]
    omega
  unfold Float.Model.unpack Float.Model.pack
  unfold UnpackedFloat.pack
  have hstored : (e + (Format.binary64.exponentBias : Int) +
      Format.binary64.mantissaBitsWithoutImplicit).toNat = b := by
    change (e + 1023 + 52).toNat = b
    omega
  dsimp only
  rw [hstored, hlog, if_neg (by norm_num; omega),
    if_pos (show 52 + 1 = Format.binary64.mantissaBits from rfl)]
  unfold UnpackedFloat.unpack
  simp only [unpackMantissa_packComponents, unpackExponent_packComponents,
    unpackSign_packComponents, Sign.ofBitVec_toBitVec, hnotAll, hnotNone, if_false, hbits, hdigits]
  congr 1
  change (b : Int) - (1023 + 52) = e
  omega

/-! ## Rounding to a double -/

theorem roundedMantissa_shiftRight (n s : Nat) :
    ((⟨n, false, false⟩ : ExtendedMantissa) >>> s).roundedMantissa = halfEven n (2 ^ s) := by
  rw [← quotient_one, shiftRight_quotient Nat.one_pos, Nat.one_mul,
    roundedMantissa_quotient (Nat.two_pow_pos s)]

/-- The first fifty-three digits of a magnitude that has `s` more. -/
theorem leading_digits {n s : Nat} (hlog : n.log2 = 52 + s) :
    2 ^ 52 ≤ n / 2 ^ s ∧ n / 2 ^ s < 2 ^ 53 := by
  have hn : n ≠ 0 := by
    rintro rfl
    rw [Nat.log2_zero] at hlog
    omega
  obtain ⟨hlow, hhigh⟩ := (Nat.log2_eq_iff hn).mp hlog
  constructor
  · rw [Nat.le_div_iff_mul_le (Nat.two_pow_pos s), ← Nat.pow_add]
    exact hlow
  · rw [Nat.div_lt_iff_lt_mul (Nat.two_pow_pos s), ← Nat.pow_add]
    exact hhigh.trans_eq (by ring)

/-- The exponent at which a magnitude has fifty-three digits before the point. -/
theorem shiftToTargetExponent_eq {n s : Nat} {e : Int} (hlog : n.log2 = 52 + s)
    (hleast : -52 ≤ e + s) :
    shiftToTargetExponent Format.binary64 n e .exact =
      ((⟨n, false, false⟩ : ExtendedMantissa) >>> s, e + s) := by
  have htarget : Format.binary64.targetExponent (totalExponent n e) = e + s := by
    change max ((n.log2 : Int) + 1 + e - 53) (-1074) = e + s
    omega
  have hshift : (e + s - e).toNat = s := by omega
  unfold shiftToTargetExponent shiftToExponent
  dsimp only
  rw [htarget, hshift]
  rfl

/-- **A magnitude is rounded to fifty-three digits**, a tie to the even one. -/
theorem roundWithAccuracy_eq (sign : Sign) {n s : Nat} {e : Int} (hlog : n.log2 = 52 + s)
    (hleast : -52 ≤ e + s) (hmost : e + s ≤ 899) :
    ∃ m e', ∃ h : Normal m e',
      roundWithAccuracy Format.binary64 sign n e .exact = .finite sign m e' h.pos ∧
      m * 2 ^ (e' + 52).toNat = halfEven n (2 ^ s) * 2 ^ (e + s + 52).toNat := by
  obtain ⟨hle, hlt⟩ := leading_digits hlog
  have hfloor := le_halfEven n (2 ^ s)
  have hceil := halfEven_le n (2 ^ s)
  unfold roundWithAccuracy
  rw [shiftToTargetExponent_eq hlog hleast]
  dsimp only
  rw [roundedMantissa_shiftRight]
  generalize halfEven n (2 ^ s) = r at *
  -- one more digit only if the rounding carries into it
  rcases Nat.lt_or_ge r (2 ^ 53) with hr | hr
  · have hnormal : Normal r (e + s) := ⟨hle.trans hfloor, hr, hleast, by omega⟩
    have hstays := shiftToTargetExponent_eq (n := r) (s := 0) hnormal.log2
      (e := e + s) (by simpa using hleast)
    rw [hstays]
    refine ⟨r, e + s, hnormal, dif_neg (Nat.ne_of_gt hnormal.pos) |>.trans ?_, rfl⟩
    congr 1
    exact Int.add_zero _
  · obtain rfl : r = 2 ^ 53 := by omega
    have hcarries := shiftToTargetExponent_eq (n := 2 ^ 53) (s := 1) Nat.log2_two_pow
      (e := e + s) (by omega)
    rw [hcarries]
    have hnormal : Normal (2 ^ 52) (e + s + 1) := ⟨Nat.le_refl _, by decide, by omega, by omega⟩
    have hup : (e + s + 1 + 52).toNat = (e + s + 52).toNat + 1 := by omega
    refine ⟨2 ^ 52, e + s + 1, hnormal, rfl, ?_⟩
    rw [hup]
    ring

/-! ## Whole numbers -/

/-- A whole number as a double has it: rounded to fifty-three binary digits. -/
def nearest (n : Nat) : Nat :=
  halfEven n (2 ^ (n.log2 - 52)) * 2 ^ (n.log2 - 52)

theorem onGrid_one (n : Nat) : onGrid n 1 = nearest n := by
  rw [onGrid, nearest, Nat.div_one, Nat.one_mul]

theorem nearest_of_lt {n : Nat} (h : n < 2 ^ 53) : nearest n = n := by
  have hkept := onGrid_of_digits 0 h Nat.one_pos
  rwa [Nat.mul_one, Nat.pow_zero, Nat.mul_one, onGrid_one] at hkept

/-- A number is rounded to one with as many digits, or to the next power of two. -/
theorem nearest_bounds {n : Nat} (hn : 0 < n) :
    2 ^ n.log2 ≤ nearest n ∧ nearest n ≤ 2 ^ (n.log2 + 1) := by
  have hlow := le_onGrid (d := 1) ((Nat.div_one n).symm ▸ hn)
  have hhigh := onGrid_le n 1
  rw [Nat.div_one, onGrid_one] at hlow hhigh
  exact ⟨hlow, hhigh⟩

theorem nearest_pos {n : Nat} (hn : 0 < n) : 0 < nearest n :=
  Nat.lt_of_lt_of_le (Nat.two_pow_pos _) (nearest_bounds hn).1

/-- Rounding keeps the order. -/
theorem nearest_mono {m n : Nat} (h : m ≤ n) : nearest m ≤ nearest n := by
  rw [← onGrid_one, ← onGrid_one]
  exact onGrid_mono_left 1 h

/-- The number is this whole number, which is not zero, in its normal form. -/
def Shows (sign : Sign) (n : Nat) (u : UnpackedFloat) : Prop :=
  ∃ m e, ∃ h : Normal m e, u = .finite sign m e h.pos ∧ m * 2 ^ (e + 52).toNat = n * 2 ^ 52

theorem Shows.unpack_pack {sign : Sign} {n : Nat} {u : UnpackedFloat} (h : Shows sign n u) :
    (Float.Model.pack u).unpack = u := by
  obtain ⟨m, e, hnormal, rfl, -⟩ := h
  have hleast := hnormal.least
  have hmost := hnormal.most
  exact Decimal.unpack_pack hnormal.pos hnormal.low hnormal.high (by omega) (by omega) sign

/-- A whole number is rounded alike with however many zeros behind the point, if it has
fifty-three digits with them. -/
theorem shows_roundWithAccuracy {n : Nat} (hn : 0 < n) (hsmall : n.log2 ≤ 900) {j : Nat}
    (hj : 52 ≤ n.log2 + j) (sign : Sign) :
    Shows sign (nearest n)
      (roundWithAccuracy Format.binary64 sign (n * 2 ^ j) (-(j : Int)) .exact) := by
  obtain ⟨s, hs⟩ := Nat.exists_eq_add_of_le hj
  obtain ⟨m, e, hnormal, heq, hvalue⟩ := roundWithAccuracy_eq sign (n := n * 2 ^ j) (s := s)
    (e := -(j : Int)) ((log2_mul_two_pow hn j).trans hs) (by omega) (by omega)
  refine ⟨m, e, hnormal, heq, hvalue.trans ?_⟩
  have hexponent : (-(j : Int) + s + 52).toNat = n.log2 := by omega
  rw [hexponent]
  rcases Nat.lt_or_ge n.log2 52 with hfew | hmany
  · -- nothing but zeros is dropped
    have hzeros : 2 ^ j = 2 ^ (52 - n.log2) * 2 ^ s := by
      rw [← Nat.pow_add]
      congr 1
      omega
    have hn53 : n < 2 ^ 53 := (Nat.log2_lt (Nat.ne_of_gt hn)).mp (by omega)
    rw [nearest_of_lt hn53, hzeros, ← Nat.mul_assoc, halfEven_mul_self _ (Nat.two_pow_pos s),
      Nat.mul_assoc, ← Nat.pow_add]
    congr 2
    omega
  · have hzeros : 2 ^ s = 2 ^ (n.log2 - 52) * 2 ^ j := by
      rw [← Nat.pow_add]
      congr 1
      omega
    have hdigits : 2 ^ n.log2 = 2 ^ (n.log2 - 52) * 2 ^ 52 := by
      rw [← Nat.pow_add]
      congr 1
      omega
    unfold nearest
    rw [hzeros, halfEven_mul _ _ (Nat.two_pow_pos j), hdigits, Nat.mul_assoc]

theorem mul_finite {spec : Format} {s₁ s₂ : Sign} {m₁ m₂ : Nat} {e₁ e₂ : Int} (h₁ : 0 < m₁)
    (h₂ : 0 < m₂) : UnpackedFloat.mul spec (.finite s₁ m₁ e₁ h₁) (.finite s₂ m₂ e₂ h₂) =
      roundWithAccuracy spec (s₁ * s₂) (m₁ * m₂) (e₁ + e₂) .exact := rfl

/-- Multiplying by one changes nothing. -/
theorem shows_mul_one {n : Nat} {u : UnpackedFloat} (hn : n < 2 ^ 200)
    (h : Shows .positive n u) : Shows .positive n (UnpackedFloat.mul Format.binary64 u
      (.finite .positive (2 ^ 52) (-52) (by decide))) := by
  obtain ⟨m, e, hnormal, rfl, hvalue⟩ := h
  have hlog : (m * 2 ^ 52).log2 = 52 + 52 := by
    rw [log2_mul_two_pow hnormal.pos, hnormal.log2]
  have hleast := hnormal.least
  have hle : 2 ^ (e + 52).toNat ≤ n := by
    refine Nat.le_of_mul_le_mul_right ?_ (Nat.two_pow_pos 52)
    rw [← hvalue, Nat.mul_comm]
    exact Nat.mul_le_mul_right _ hnormal.low
  have hmost : (e + 52).toNat < 200 :=
    (Nat.pow_lt_pow_iff_right Nat.one_lt_two).mp (Nat.lt_of_le_of_lt hle hn)
  obtain ⟨m', e', hnormal', heq, hvalue'⟩ := roundWithAccuracy_eq .positive hlog
    (e := e + -52) (by omega) (by omega)
  have hexponent : (e + -52 + (52 : Nat) + 52).toNat = (e + 52).toNat := by omega
  refine ⟨m', e', hnormal', heq, hvalue'.trans ?_⟩
  rw [halfEven_mul_self _ (Nat.two_pow_pos 52), hexponent, hvalue]

/-! ## From whole numbers -/

theorem unpack_mul (x y : Float) : (x * y).toModel.unpack = (Float.Model.pack
    (UnpackedFloat.mul Format.binary64 x.toModel.unpack y.toModel.unpack)).unpack := rfl

theorem unpack_one : Float.exactlyRepresentablePowersOfTen[0].toModel.unpack =
    .finite .positive (2 ^ 52) (-52) (by decide) := rfl

/-- A number that fits is taken over, and multiplied by one. -/
theorem ofNat_of_lt {n : Nat} (h : n < 2 ^ 53) :
    Float.ofNat n = n.toUInt64.toFloat * Float.exactlyRepresentablePowersOfTen[0] := by
  change Float.ofScientific n false 0 = _
  unfold Float.ofScientific
  rw [dif_pos ⟨h, Nat.zero_le _⟩]
  rfl

theorem ofNat_of_ge {n : Nat} (h : 2 ^ 53 ≤ n) :
    Float.ofNat n = ⟨Float.Model.ofScientific n 0⟩ := by
  change Float.ofScientific n false 0 = _
  unfold Float.ofScientific
  rw [dif_neg fun hn => Nat.not_le.mpr hn.1 h]
  rfl

theorem shows_toFloat {n : Nat} (hn : 0 < n) (hlt : n < 2 ^ 53) :
    Shows .positive (nearest n) n.toUInt64.toFloat.toModel.unpack := by
  have hfew : n.log2 ≤ 52 := Nat.lt_succ_iff.mp ((Nat.log2_lt (Nat.ne_of_gt hn)).mpr hlt)
  have hnat : n.toUInt64.toNat = n := UInt64.toNat_ofNat_of_lt (hlt.trans (by decide))
  have hshows := shows_roundWithAccuracy hn (by omega) (j := 52 - n.log2) (by omega) .positive
  have hround : UnpackedFloat.ofNat Format.binary64 n.toUInt64.toNat =
      roundWithAccuracy Format.binary64 .positive (n * 2 ^ (52 - n.log2))
        (-((52 - n.log2 : Nat) : Int)) .exact := by
    have hcompare : compare (n : Int) 0 = .gt := Int.compare_eq_gt.mpr (Int.natCast_pos.mpr hn)
    have htarget : Format.binary64.targetExponent (totalExponent n 0) = n.log2 - 52 := by
      change max ((n.log2 : Int) + 1 + 0 - 53) (-1074) = n.log2 - 52
      omega
    have hshift : (0 - ((n.log2 : Int) - 52)).toNat = 52 - n.log2 := by omega
    rw [hnat]
    unfold UnpackedFloat.ofNat UnpackedFloat.ofInt UnpackedFloat.normalize
    rw [hcompare]
    unfold UnpackedFloat.round decreaseExponent
    dsimp only
    rw [Int.toNat_natCast, htarget, hshift, Nat.shiftLeft_eq, Int.zero_sub]
  rw [← hround] at hshows
  change Shows _ _ (Float.Model.pack (UnpackedFloat.ofNat Format.binary64 _)).unpack
  rw [hshows.unpack_pack]
  exact hshows

/-- **A whole number becomes the nearest double.** -/
theorem shows_ofNat {n : Nat} (hn : 0 < n) (hmost : n < 2 ^ 64) :
    Shows .positive (nearest n) (Float.ofNat n).toModel.unpack := by
  have hlog : n.log2 < 64 := (Nat.log2_lt (Nat.ne_of_gt hn)).mpr hmost
  rcases Nat.lt_or_ge n (2 ^ 53) with hlt | hge
  · have hnearest : nearest n < 2 ^ 200 := by
      rw [nearest_of_lt hlt]
      exact hlt.trans (Nat.pow_lt_pow_right Nat.one_lt_two (by decide))
    have hshows := shows_mul_one hnearest (shows_toFloat hn hlt)
    rw [ofNat_of_lt hlt, unpack_mul, unpack_one, hshows.unpack_pack]
    exact hshows
  · have hmany : 53 ≤ n.log2 := (Nat.le_log2 (Nat.ne_of_gt hn)).mpr hge
    have hshows := shows_roundWithAccuracy hn (by omega) (j := 53) (by omega) .positive
    have hround : UnpackedFloat.ofScientific Format.binary64 n 0 =
        roundWithAccuracy Format.binary64 .positive (n * 2 ^ 53) (-((53 : Nat) : Int)) .exact := by
      unfold UnpackedFloat.ofScientific
      have hlarge : ¬ (0 : Int) < -(2 ^ Format.binary64.exponentBits + n.log2) := by
        norm_num
      have hdigits : Format.binary64.mantissaBits = 53 := rfl
      rw [dif_neg (Nat.ne_of_gt hn), if_neg (by decide), if_neg hlarge, if_pos (Int.le_refl 0),
        mul_finite, hdigits, Nat.shiftLeft_eq, Int.toNat_zero, Nat.pow_zero, Nat.mul_one,
        Int.add_zero]
      rfl
    rw [← hround] at hshows
    rw [ofNat_of_ge hge]
    change Shows _ _ (Float.Model.pack (UnpackedFloat.ofScientific Format.binary64 n 0)).unpack
    rw [hshows.unpack_pack]
    exact hshows

/-! ## Comparing -/

/-- Numbers are compared like their multiples. -/
theorem compare_of_multiples {a b c m m' k : Nat} (hk : 0 < k) (hc : 0 < c) (h : m * k = a * c)
    (h' : m' * k = b * c) : compare m m' = compare a b := by
  rcases Nat.lt_trichotomy m m' with hlt | rfl | hgt
  · have hless : a * c < b * c := by
      rw [← h, ← h']
      exact Nat.mul_lt_mul_of_pos_right hlt hk
    rw [Nat.compare_eq_lt.mpr hlt, Nat.compare_eq_lt.mpr (Nat.lt_of_mul_lt_mul_right hless)]
  · obtain rfl : a = b := Nat.eq_of_mul_eq_mul_right hc (h.symm.trans h')
    rw [Nat.compare_eq_eq.mpr rfl, Nat.compare_eq_eq.mpr rfl]
  · have hgreater : b * c < a * c := by
      rw [← h, ← h']
      exact Nat.mul_lt_mul_of_pos_right hgt hk
    rw [Nat.compare_eq_gt.mpr hgt, Nat.compare_eq_gt.mpr (Nat.lt_of_mul_lt_mul_right hgreater)]

/-- The one with the smaller exponent is smaller. -/
theorem Normal.lt {a b c m m' : Nat} {e e' : Int} (h : Normal m e) (h' : Normal m' e')
    (hvalue : m * 2 ^ (e + 52).toNat = a * c) (hvalue' : m' * 2 ^ (e' + 52).toNat = b * c)
    (hlt : e < e') : a < b := by
  have hleast := h.least
  have hstep : (e + 52).toNat + 1 ≤ (e' + 52).toNat := by omega
  refine Nat.lt_of_mul_lt_mul_right (a := c) ?_
  calc a * c = m * 2 ^ (e + 52).toNat := hvalue.symm
    _ < 2 ^ 53 * 2 ^ (e + 52).toNat := Nat.mul_lt_mul_of_pos_right h.high (Nat.two_pow_pos _)
    _ = 2 ^ 52 * 2 ^ ((e + 52).toNat + 1) := by ring
    _ ≤ m' * 2 ^ (e' + 52).toNat :=
      Nat.mul_le_mul h'.low (Nat.pow_le_pow_right Nat.two_pos hstep)
    _ = b * c := hvalue'

/-- Numbers in their normal form are compared by their exponents first. -/
theorem Normal.compare_eq {a b c m m' : Nat} {e e' : Int} (hc : 0 < c) (h : Normal m e)
    (h' : Normal m' e') (hvalue : m * 2 ^ (e + 52).toNat = a * c)
    (hvalue' : m' * 2 ^ (e' + 52).toNat = b * c) :
    (compare e e').then (compare m m') = compare a b := by
  rcases Int.lt_trichotomy e e' with hlt | rfl | hgt
  · rw [Int.compare_eq_lt.mpr hlt, Nat.compare_eq_lt.mpr (h.lt h' hvalue hvalue' hlt)]
    rfl
  · rw [Int.compare_eq_eq.mpr rfl]
    exact compare_of_multiples (Nat.two_pow_pos _) hc hvalue hvalue'
  · rw [Int.compare_eq_gt.mpr hgt, Nat.compare_eq_gt.mpr (h'.lt h hvalue' hvalue hgt)]
    rfl

/-! ## Integers -/

/-- An integer as a double has it. -/
def nearestInt (i : Int) : Int :=
  i.sign * nearest i.natAbs

/-- The number is this integer, in its normal form. -/
inductive Equals : Int → UnpackedFloat → Prop where
  | zero : Equals 0 (.zero .positive)
  | positive {n : Nat} {u : UnpackedFloat} : 0 < n → Shows .positive n u → Equals n u
  | negative {n : Nat} {u : UnpackedFloat} : 0 < n → Shows .negative n u → Equals (-n) u

theorem Shows.neg {n : Nat} {u : UnpackedFloat} (h : Shows .positive n u) :
    Shows .negative n u.neg := by
  obtain ⟨m, e, hnormal, rfl, hvalue⟩ := h
  exact ⟨m, e, hnormal, rfl, hvalue⟩

theorem nearestInt_natCast (n : Nat) : nearestInt n = nearest n := by
  rcases Nat.eq_zero_or_pos n with rfl | hn
  · rfl
  · have hsign : (n : Int).sign = 1 := Int.sign_eq_one_of_pos (Int.natCast_pos.mpr hn)
    unfold nearestInt
    rw [hsign, Int.one_mul, Int.natAbs_natCast]

theorem nearestInt_neg (i : Int) : nearestInt (-i) = -nearestInt i := by
  unfold nearestInt
  rw [Int.sign_neg, Int.natAbs_neg, Int.neg_mul]

theorem natAbs_nearestInt (i : Int) : (nearestInt i).natAbs = nearest i.natAbs := by
  obtain ⟨n, rfl | rfl⟩ := i.eq_nat_or_neg
  · rw [nearestInt_natCast, Int.natAbs_natCast, Int.natAbs_natCast]
  · rw [nearestInt_neg, nearestInt_natCast, Int.natAbs_neg, Int.natAbs_neg, Int.natAbs_natCast,
      Int.natAbs_natCast]

/-- Rounding keeps the order. -/
theorem nearestInt_mono {a b : Int} (h : a ≤ b) : nearestInt a ≤ nearestInt b := by
  obtain ⟨m, rfl | rfl⟩ := a.eq_nat_or_neg <;> obtain ⟨n, rfl | rfl⟩ := b.eq_nat_or_neg <;>
    simp only [nearestInt_neg, nearestInt_natCast]
  · have := nearest_mono (m := m) (n := n) (by omega)
    omega
  · obtain ⟨rfl, rfl⟩ : m = 0 ∧ n = 0 := by omega
    exact Int.le_refl _
  · omega
  · have := nearest_mono (m := n) (n := m) (by omega)
    omega

/-- What is less after rounding was less before. -/
theorem lt_of_nearestInt_lt {a b : Int} (h : nearestInt a < nearestInt b) : a < b :=
  Int.not_le.mp fun hle => Int.not_le.mpr h (nearestInt_mono hle)

/-- Fifty-three digits are kept. -/
theorem nearestInt_of_lt {i : Int} (h : i.natAbs < 2 ^ 53) : nearestInt i = i := by
  unfold nearestInt
  rw [nearest_of_lt h, Int.sign_mul_natAbs]

/-- An integer of at most fifty-three digits does not share its double. -/
theorem nearestInt_inj {a b : Int} (ha : a.natAbs < 2 ^ 53) :
    nearestInt a = nearestInt b ↔ a = b := by
  refine ⟨fun h => ?_, congrArg nearestInt⟩
  rcases Nat.lt_or_ge b.natAbs (2 ^ 53) with hb | hb
  · rwa [nearestInt_of_lt ha, nearestInt_of_lt hb] at h
  · have hpos : 0 < b.natAbs := Nat.lt_of_lt_of_le (Nat.two_pow_pos 53) hb
    have hlog : 53 ≤ b.natAbs.log2 := (Nat.le_log2 (Nat.ne_of_gt hpos)).mpr hb
    have hmagnitude : a.natAbs = nearest b.natAbs := by
      rw [← natAbs_nearestInt, ← h, nearestInt_of_lt ha]
    have hlarge : 2 ^ 53 ≤ nearest b.natAbs :=
      (Nat.pow_le_pow_right Nat.two_pos hlog).trans (nearest_bounds hpos).1
    omega

/-- **An integer becomes the nearest double.** -/
theorem equals_ofInt {i : Int} (h : i.natAbs < 2 ^ 64) :
    Equals (nearestInt i) (Float.ofInt i).toModel.unpack := by
  cases i with
  | ofNat n =>
    rcases Nat.eq_zero_or_pos n with rfl | hn
    · exact .zero
    · rw [Int.ofNat_eq_natCast, nearestInt_natCast]
      exact .positive (nearest_pos hn) (shows_ofNat hn h)
  | negSucc n =>
    have hshows := (shows_ofNat (Nat.succ_pos n) h).neg
    rw [Int.negSucc_eq, nearestInt_neg, ← Int.natCast_succ, nearestInt_natCast]
    refine .negative (nearest_pos (Nat.succ_pos n)) ?_
    change Shows _ _ (Float.Model.pack (Float.ofNat n.succ).toModel.unpack.neg).unpack
    rw [hshows.unpack_pack]
    exact hshows

theorem compare_natCast (a b : Nat) : compare (a : Int) b = compare a b := by
  simp only [compare, compareOfLessAndEq, Int.ofNat_lt, Int.natCast_inj]

theorem compare_neg_natCast (a b : Nat) : compare (-a : Int) (-b) = (compare a b).swap := by
  rcases Nat.lt_trichotomy a b with hlt | rfl | hgt
  · rw [Nat.compare_eq_lt.mpr hlt, Int.compare_eq_gt.mpr (by omega)]
    rfl
  · rw [Nat.compare_eq_eq.mpr rfl, Int.compare_eq_eq.mpr rfl]
    rfl
  · rw [Nat.compare_eq_gt.mpr hgt, Int.compare_eq_lt.mpr (by omega)]
    rfl

/-- **Integers are compared as doubles.** -/
theorem Equals.compare_eq {a b : Int} {u v : UnpackedFloat} (ha : Equals a u) (hb : Equals b v) :
    u.compare v = some (compare a b) := by
  have hpos : 0 < 2 ^ 52 := Nat.two_pow_pos 52
  cases ha with
  | zero =>
    cases hb with
    | zero => rfl
    | positive hn hv =>
      obtain ⟨m, e, hnormal, rfl, -⟩ := hv
      exact congrArg some (Int.compare_eq_lt.mpr (by omega)).symm
    | negative hn hv =>
      obtain ⟨m, e, hnormal, rfl, -⟩ := hv
      exact congrArg some (Int.compare_eq_gt.mpr (by omega)).symm
  | positive hn hu =>
    obtain ⟨m, e, hnormal, rfl, hvalue⟩ := hu
    cases hb with
    | zero => exact congrArg some (Int.compare_eq_gt.mpr (by omega)).symm
    | positive hn' hv =>
      obtain ⟨m', e', hnormal', rfl, hvalue'⟩ := hv
      rw [compare_natCast]
      exact congrArg some (hnormal.compare_eq hpos hnormal' hvalue hvalue')
    | negative hn' hv =>
      obtain ⟨m', e', hnormal', rfl, -⟩ := hv
      exact congrArg some (Int.compare_eq_gt.mpr (by omega)).symm
  | negative hn hu =>
    obtain ⟨m, e, hnormal, rfl, hvalue⟩ := hu
    cases hb with
    | zero => exact congrArg some (Int.compare_eq_lt.mpr (by omega)).symm
    | positive hn' hv =>
      obtain ⟨m', e', hnormal', rfl, -⟩ := hv
      exact congrArg some (Int.compare_eq_lt.mpr (by omega)).symm
    | negative hn' hv =>
      obtain ⟨m', e', hnormal', rfl, hvalue'⟩ := hv
      rw [compare_neg_natCast, ← hnormal.compare_eq hpos hnormal' hvalue hvalue']
      rfl

section

variable {a b : Int}

theorem beq_ofInt (ha : a.natAbs < 2 ^ 64) (hb : b.natAbs < 2 ^ 64) :
    (Float.ofInt a == Float.ofInt b) = true ↔ nearestInt a = nearestInt b := by
  have hcompare := (equals_ofInt ha).compare_eq (equals_ofInt hb)
  change UnpackedFloat.beq _ _ = true ↔ _
  unfold UnpackedFloat.beq
  rw [hcompare]
  simp

theorem lt_ofInt (ha : a.natAbs < 2 ^ 64) (hb : b.natAbs < 2 ^ 64) :
    Float.ofInt a < Float.ofInt b ↔ nearestInt a < nearestInt b := by
  have hcompare := (equals_ofInt ha).compare_eq (equals_ofInt hb)
  have hlt : Float.ofInt a < Float.ofInt b ↔
      UnpackedFloat.lt (Float.ofInt a).toModel.unpack (Float.ofInt b).toModel.unpack = true :=
    decide_eq_true_iff
  unfold UnpackedFloat.lt at hlt
  rw [hlt, hcompare]
  simp [Int.compare_eq_lt]

end

end Automation.Decimal
