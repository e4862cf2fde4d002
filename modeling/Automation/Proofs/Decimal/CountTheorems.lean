/-
Automation.Proofs.Decimal.CountTheorems — doubles that are not negative, by
what they count.

A double counts the least positive one so and so often (`Counts`), and this
number is all there is to it: doubles are compared by their counts
(`Counts.compare_eq`), and products and quotients are the exact ones on the
grid, cut off at infinity (`Counts.mul`, `Counts.inverse`). So multiplication
keeps the order of doubles that are at least one, infinity among them
(`product_mono`).
-/
import Automation.Proofs.Decimal.MultipleTheorems

namespace Automation.Decimal

open Float.Model Float.Model.UnpackedFloat

/-- How often the least double goes into the first power of two that is too large. -/
@[irreducible] def beyond : Nat := 2 ^ 2098

theorem exists_beyond_eq : ∃ b, b = 2098 ∧ beyond = 2 ^ b := by
  obtain ⟨b, hb⟩ : ∃ b, b = 2098 := ⟨_, rfl⟩
  refine ⟨b, hb, ?_⟩
  unfold beyond
  rw [hb]

theorem unity_lt_beyond : unity < beyond := by
  obtain ⟨b, hb, hbeyond⟩ := exists_beyond_eq
  obtain ⟨c, hc, hunity⟩ := exists_unity_eq
  rw [hunity, hbeyond]
  exact Nat.pow_lt_pow_right Nat.one_lt_two (by omega)

/-- How often the least double goes into a number. Infinity is counted as that power
of two. -/
inductive Counts : UnpackedFloat → Nat → Prop where
  | finite {u : UnpackedFloat} {n : Nat} : Multiple u n → n < beyond → Counts u n
  | infinity : Counts (.infinity .positive) beyond

theorem Counts.isInf_iff {u : UnpackedFloat} {n : Nat} (h : Counts u n) :
    u.isInf = true ↔ ¬n < beyond := by
  cases h with
  | finite h hlt =>
    cases h <;> exact ⟨fun hinf => absurd hinf Bool.false_ne_true, fun hge => absurd hlt hge⟩
  | infinity => exact ⟨fun _ => Nat.lt_irrefl _, fun _ => rfl⟩

/-! ## Sixty-four bits -/

/-- A multiple is below infinity if its exponent fits. -/
theorem digits_lt_beyond {m k : Nat} (hm : m < 2 ^ 53) (hdigits : 2 ^ 52 ≤ m ∨ k = 0) :
    m * 2 ^ k < beyond ↔ k < 2046 := by
  obtain ⟨c, hc, hbeyond⟩ := exists_beyond_eq
  rw [hbeyond]
  constructor
  · intro hlt
    rcases hdigits with hlow | rfl
    · have hpow : 2 ^ (52 + k) < 2 ^ c := by
        rw [Nat.pow_add]
        exact (Nat.mul_le_mul_right _ hlow).trans_lt hlt
      have := (Nat.pow_lt_pow_iff_right Nat.one_lt_two).mp hpow
      omega
    · decide
  · intro hk
    calc m * 2 ^ k < 2 ^ 53 * 2 ^ k := Nat.mul_lt_mul_of_pos_right hm (Nat.two_pow_pos k)
      _ = 2 ^ (53 + k) := (Nat.pow_add 2 53 k).symm
      _ ≤ 2 ^ c := Nat.pow_le_pow_right Nat.two_pos (by omega)

/-- A double of fewer digits, which has the least exponent. -/
theorem unpack_pack_of_lt {m : Nat} (hpos : 0 < m) (hm : m < 2 ^ 52) :
    (Float.Model.pack (.finite .positive m (-1074) hpos)).unpack =
      .finite .positive m (-1074) hpos := by
  have hlog : m.log2 + 1 ≠ Format.binary64.mantissaBits := by
    have := (Nat.log2_lt (Nat.ne_of_gt hpos)).mpr hm
    change m.log2 + 1 ≠ 53
    omega
  have hdigits : (BitVec.ofNat 52 m).toNat = m := by
    rw [BitVec.toNat_ofNat, Nat.mod_eq_of_lt hm]
  have hne : BitVec.ofNat 52 m ≠ 0#52 := by
    intro hzero
    rw [hzero] at hdigits
    exact Nat.ne_of_lt hpos hdigits
  unfold Float.Model.unpack Float.Model.pack
  unfold UnpackedFloat.pack
  dsimp only
  rw [if_neg (by decide), if_neg hlog]
  unfold UnpackedFloat.unpack
  simp only [unpackMantissa_packComponents, unpackExponent_packComponents,
    unpackSign_packComponents, Sign.ofBitVec_toBitVec, hne, hdigits]
  rfl

/-- An exponent that does not fit. -/
theorem unpack_pack_of_ge {m k : Nat} (hpos : 0 < m) (hk : 2046 ≤ k) :
    (Float.Model.pack (.finite .positive m (k - 1074) hpos)).unpack = .infinity .positive := by
  have hstored : ((k : Int) - 1074 + (Format.binary64.exponentBias : Int) +
      Format.binary64.mantissaBitsWithoutImplicit).toNat = k + 1 := by
    change ((k : Int) - 1074 + 1023 + 52).toNat = k + 1
    omega
  have hfull : 2 ^ Format.binary64.exponentBits ≤ k + 1 + 1 := by
    change 2048 ≤ k + 1 + 1
    omega
  unfold Float.Model.unpack Float.Model.pack
  unfold UnpackedFloat.pack
  dsimp only
  rw [hstored, if_pos hfull]
  rfl

/-- **Sixty-four bits keep a double, or become infinity.** -/
theorem Multiple.unpack_pack {u : UnpackedFloat} {n : Nat} (h : Multiple u n) :
    Counts (Float.Model.pack u).unpack (min n beyond) := by
  cases h with
  | zero =>
    rw [Nat.zero_min]
    exact .finite .zero (unity_pos.trans unity_lt_beyond)
  | @finite m k hpos hm hdigits =>
    rcases Nat.lt_or_ge k 2046 with hk | hk
    · have hlt := (digits_lt_beyond hm hdigits).mpr hk
      rw [Nat.min_eq_left hlt.le]
      have hkept : (Float.Model.pack (.finite .positive m (k - 1074) hpos)).unpack =
          .finite .positive m (k - 1074) hpos := by
        rcases Nat.lt_or_ge m (2 ^ 52) with hfew | hmany
        · obtain rfl : k = 0 := hdigits.resolve_left (Nat.not_le.mpr hfew)
          exact unpack_pack_of_lt hpos hfew
        · exact Decimal.unpack_pack hpos hmany hm (by omega) (by omega) .positive
      rw [hkept]
      exact .finite (.finite hpos hm hdigits) hlt
    · have hge : beyond ≤ m * 2 ^ k :=
        Nat.not_lt.mp fun hlt => Nat.not_lt.mpr hk ((digits_lt_beyond hm hdigits).mp hlt)
      rw [Nat.min_eq_right hge, unpack_pack_of_ge hpos hk]
      exact .infinity

/-! ## Comparing -/

/-- **Doubles are compared by their counts.** -/
theorem Counts.compare_eq {u v : UnpackedFloat} {m n : Nat} (hu : Counts u m) (hv : Counts v n) :
    u.compare v = some (compare m n) := by
  cases hu with
  | finite hu hm =>
    cases hv with
    | finite hv hn => exact hu.compare_eq hv
    | infinity =>
      rw [Nat.compare_eq_lt.mpr hm]
      cases hu <;> rfl
  | infinity =>
    cases hv with
    | finite hv hn =>
      rw [Nat.compare_eq_gt.mpr hn]
      cases hv <;> rfl
    | infinity =>
      rw [Nat.compare_eq_eq.mpr rfl]
      rfl

section

variable {x y z w : Float} {m n : Nat}

theorem le_iff_unpack : x ≤ y ↔ UnpackedFloat.le x.toModel.unpack y.toModel.unpack = true :=
  decide_eq_true_iff

theorem Counts.le_iff (hx : Counts x.toModel.unpack m) (hy : Counts y.toModel.unpack n) :
    x ≤ y ↔ m ≤ n := by
  rw [le_iff_unpack, UnpackedFloat.le, hx.compare_eq hy]
  simp [Nat.isLE_compare]

theorem Counts.lt_iff (hx : Counts x.toModel.unpack m) (hy : Counts y.toModel.unpack n) :
    x < y ↔ m < n := by
  have hlt : x < y ↔ UnpackedFloat.lt x.toModel.unpack y.toModel.unpack = true :=
    decide_eq_true_iff
  unfold UnpackedFloat.lt at hlt
  rw [hlt, hx.compare_eq hy]
  simp [Nat.compare_eq_lt]

end

/-! ## Which doubles are counted -/

/-- What sixty-four bits can be read as. -/
inductive Proper : UnpackedFloat → Prop where
  | notANumber : Proper .notANumber
  | infinity (sign : Sign) : Proper (.infinity sign)
  | zero (sign : Sign) : Proper (.zero sign)
  | finite (sign : Sign) {m k : Nat} (hm : 0 < m) : m < 2 ^ 53 → 2 ^ 52 ≤ m ∨ k = 0 → k < 2046 →
    Proper (.finite sign m (k - 1074) hm)

theorem Proper.of_exponent (sign : Sign) {m : Nat} {e : Int} (k : Nat) (hm : 0 < m)
    (he : e = k - 1074) (hhigh : m < 2 ^ 53) (hdigits : 2 ^ 52 ≤ m ∨ k = 0) (hk : k < 2046) :
    Proper (.finite sign m e hm) := by
  subst he
  exact .finite sign hm hhigh hdigits hk

/-- A double with a leading one. -/
theorem proper_of_fields (sign : Sign) {field : BitVec 11} {digits : BitVec 52}
    (hall : field ≠ -1#11) (hleast : field ≠ 0#11) (hpos : 0 < (1#1 ++ digits).toNat) :
    Proper (.finite sign (1#1 ++ digits).toNat (field.toNat - (1023 + 52)) hpos) := by
  have hfield := field.isLt
  have hdigits := digits.isLt
  have hall' : field.toNat ≠ 2047 := fun h => hall (BitVec.eq_of_toNat_eq h)
  have hleast' : field.toNat ≠ 0 := fun h => hleast (BitVec.eq_of_toNat_eq h)
  have hvalue : (1#1 ++ digits).toNat = 2 ^ 52 + digits.toNat := by
    rw [BitVec.toNat_append, ← Nat.shiftLeft_add_eq_or_of_lt digits.isLt]
    rfl
  exact .of_exponent sign (field.toNat - 1) hpos (by omega) (by omega) (.inl (by omega)) (by omega)

theorem proper_unpack (x : Float.Model) : Proper x.unpack := by
  unfold Float.Model.unpack UnpackedFloat.unpack
  dsimp only
  split_ifs with hall hnone hleast hzero
  · exact .infinity _
  · exact .notANumber
  · exact .zero _
  · refine .of_exponent _ 0 _ ?_ ((BitVec.isLt _).trans (by decide)) (.inr rfl) (by decide)
    rw [hleast]
    rfl
  · exact proper_of_fields _ hall hleast _

/-- What is not less than a positive double is one. -/
theorem Counts.exists_of_le {u : UnpackedFloat} {m : Nat} {y : Float} (hu : Counts u m)
    (hpos : 0 < m) (h : u.le y.toModel.unpack = true) : ∃ n, Counts y.toModel.unpack n := by
  have hproper := proper_unpack y.toModel
  generalize y.toModel.unpack = v at h hproper ⊢
  -- not a number, and nothing negative, is at least a positive double
  have hpositive : v ≠ .notANumber ∧ v ≠ .infinity .negative ∧ v ≠ .zero .negative ∧
      ∀ m e hm, v ≠ .finite .negative m e hm := by
    cases hu with
    | finite hu hlt =>
      cases hu with
      | zero => exact absurd hpos (Nat.lt_irrefl 0)
      | finite =>
        refine ⟨?_, ?_, ?_, fun m e hm => ?_⟩ <;> rintro rfl <;> exact Bool.false_ne_true h
    | infinity =>
      refine ⟨?_, ?_, ?_, fun m e hm => ?_⟩ <;> rintro rfl <;> exact Bool.false_ne_true h
  obtain ⟨hnumber, hinfinite, hzero, hfinite⟩ := hpositive
  cases hproper with
  | notANumber => exact absurd rfl hnumber
  | infinity sign =>
    cases sign with
    | negative => exact absurd rfl hinfinite
    | positive => exact ⟨_, .infinity⟩
  | zero sign =>
    cases sign with
    | negative => exact absurd rfl hzero
    | positive => exact ⟨_, .finite .zero (unity_pos.trans unity_lt_beyond)⟩
  | finite sign hm hhigh hdigits hk =>
    cases sign with
    | negative => exact absurd rfl (hfinite _ _ _)
    | positive =>
      exact ⟨_, .finite (.finite hm hhigh hdigits) ((digits_lt_beyond hhigh hdigits).mpr hk)⟩

/-! ## Whole numbers -/

theorem multiple_ofNat {n : Nat} (hn : n < 2 ^ 64) :
    Multiple (Float.ofNat n).toModel.unpack (nearest n * unity) ∧ nearest n * unity < beyond := by
  rcases Nat.eq_zero_or_pos n with rfl | hpos
  · rw [nearest_of_lt (by decide), Nat.zero_mul]
    exact ⟨.zero, unity_pos.trans unity_lt_beyond⟩
  · obtain ⟨m, e, hnormal, heq, hvalue⟩ := shows_ofNat hpos hn
    obtain ⟨c, hc, hunity⟩ := exists_unity_eq
    have hleast := hnormal.least
    have hmost := hnormal.most
    obtain ⟨k, rfl⟩ : ∃ k : Nat, e = k - 1074 := ⟨(e + 1074).toNat, by omega⟩
    have hcount : nearest n * unity = m * 2 ^ k := by
      obtain ⟨j, hj⟩ : ∃ j, c = 52 + j := ⟨c - 52, by omega⟩
      have hexponent : k = (k - 1074 + 52 : Int).toNat + j := by omega
      rw [hunity, hj, Nat.pow_add, ← Nat.mul_assoc, ← hvalue, Nat.mul_assoc, ← Nat.pow_add,
        ← hexponent]
    have hdigits : 2 ^ 52 ≤ m ∨ k = 0 := .inl hnormal.low
    rw [heq, hcount]
    exact ⟨.finite hnormal.pos hnormal.high hdigits,
      (digits_lt_beyond hnormal.high hdigits).mpr (by omega)⟩

theorem counts_ofNat {n : Nat} (hn : n < 2 ^ 64) :
    Counts (Float.ofNat n).toModel.unpack (nearest n * unity) :=
  .finite (multiple_ofNat hn).1 (multiple_ofNat hn).2

theorem counts_one : Counts (1 : Float).toModel.unpack unity := by
  have h := counts_ofNat (n := 1) (by decide)
  rwa [nearest_of_lt (by decide), Nat.one_mul] at h

theorem unpack_one_eq : (1 : Float).toModel.unpack =
    .finite .positive (2 ^ 52) (-52) (by decide) := rfl

/-! ## Products -/

/-- How often the least double goes into the product of two doubles. -/
def times (m n : Nat) : Nat :=
  min (onGrid (m * n) unity) beyond

theorem times_comm (m n : Nat) : times m n = times n m := by
  rw [times, times, Nat.mul_comm]

theorem times_mono {m m' n n' : Nat} (h : m ≤ m') (h' : n ≤ n') : times m n ≤ times m' n' :=
  min_le_min_right _ (onGrid_mono_left _ (Nat.mul_le_mul h h'))

theorem times_unity {u : UnpackedFloat} {n : Nat} (h : Counts u n) : times n unity = n := by
  unfold times
  cases h with
  | finite h hlt =>
    cases h with
    | zero => rw [Nat.zero_mul, onGrid_zero, Nat.zero_min]
    | @finite m k hpos hm hdigits => rw [onGrid_of_digits k hm unity_pos, Nat.min_eq_left hlt.le]
  | infinity =>
    obtain ⟨c, -, hbeyond⟩ := exists_beyond_eq
    have hkept := onGrid_of_digits (m := 1) c (by decide) unity_pos
    rw [hbeyond, ← Nat.one_mul (2 ^ c), hkept, Nat.min_self]

theorem times_beyond {n : Nat} (h : unity ≤ n) : times n beyond = beyond := by
  refine Nat.le_antisymm (Nat.min_le_right _ _) ?_
  calc beyond = times unity beyond := (times_comm unity beyond ▸ times_unity .infinity).symm
    _ ≤ times n beyond := times_mono h (Nat.le_refl _)

theorem unpack_pack_infinity :
    (Float.Model.pack (.infinity .positive)).unpack = .infinity .positive := rfl

/-- **The product of two doubles** is the exact one on the grid. Infinity must not
meet zero. -/
theorem Counts.mul {u v : UnpackedFloat} {m n : Nat} (hu : Counts u m) (hv : Counts v n)
    (hm : m < beyond ∨ unity ≤ n) (hn : n < beyond ∨ unity ≤ m) :
    Counts (Float.Model.pack (UnpackedFloat.mul Format.binary64 u v)).unpack (times m n) := by
  cases hu with
  | finite hu hlt =>
    cases hv with
    | finite hv hlt' => exact (hu.mul hv).unpack_pack
    | infinity =>
      have hle : unity ≤ m := hn.resolve_left (Nat.lt_irrefl _)
      rw [times_beyond hle]
      cases hu with
      | zero => exact absurd hle (Nat.not_le.mpr unity_pos)
      | finite => exact unpack_pack_infinity ▸ .infinity
  | infinity =>
    have hle : unity ≤ n := hm.resolve_left (Nat.lt_irrefl _)
    rw [times_comm, times_beyond hle]
    cases hv with
    | finite hv hlt' =>
      cases hv with
      | zero => exact absurd hle (Nat.not_le.mpr unity_pos)
      | finite => exact unpack_pack_infinity ▸ .infinity
    | infinity => exact unpack_pack_infinity ▸ .infinity

/-! ## One over a double -/

/-- How often the least double goes into one over a double that is at least one. -/
def reciprocal (n : Nat) : Nat :=
  if n < beyond then onGrid (unity * unity) n else 0

theorem reciprocal_anti {m n : Nat} (hm : 0 < m) (h : m ≤ n) : reciprocal n ≤ reciprocal m := by
  unfold reciprocal
  split_ifs with hn hm'
  · exact onGrid_mono (hm.trans_le h) hm (Nat.mul_le_mul_left _ h)
  · exact absurd (h.trans_lt hn) hm'
  · exact Nat.zero_le _
  · exact Nat.le_refl _

theorem reciprocal_unity : reciprocal unity = unity := by
  obtain ⟨c, -, hunity⟩ := exists_unity_eq
  have hkept := onGrid_of_digits (m := 1) c (by decide) unity_pos
  rw [Nat.one_mul, ← hunity] at hkept
  rw [reciprocal, if_pos unity_lt_beyond, hkept]

theorem reciprocal_le {n : Nat} (h : unity ≤ n) : reciprocal n ≤ unity :=
  (reciprocal_anti unity_pos h).trans_eq reciprocal_unity

theorem Counts.inverse {x : Float} {n : Nat} (hx : Counts x.toModel.unpack n) (h : unity ≤ n) :
    Counts (1 / x).toModel.unpack (reciprocal n) := by
  change Counts (Float.Model.pack
    (UnpackedFloat.div Format.binary64 (1 : Float).toModel.unpack x.toModel.unpack)).unpack _
  rw [unpack_one_eq]
  generalize x.toModel.unpack = u at hx ⊢
  cases hx with
  | finite hu hlt =>
    rw [reciprocal, if_pos hlt]
    cases hu with
    | zero => exact absurd h (Nat.not_le.mpr unity_pos)
    | @finite m k hpos hm hdigits =>
      have hbound := reciprocal_le h
      rw [reciprocal, if_pos hlt] at hbound
      have hlow : 2 ^ 52 ≤ m := by
        refine hdigits.resolve_right ?_
        rintro rfl
        obtain ⟨c, hc, hunity⟩ := exists_unity_eq
        rw [Nat.pow_zero, Nat.mul_one, hunity] at h
        have := (Nat.pow_lt_pow_iff_right Nat.one_lt_two).mp (h.trans_lt hm)
        omega
      have hcounts :=
        (Multiple.inverse hpos hlow hm ((digits_lt_beyond hm hdigits).mp hlt)).unpack_pack
      rwa [Nat.min_eq_left (hbound.trans unity_lt_beyond.le)] at hcounts
  | infinity =>
    rw [reciprocal, if_neg (Nat.lt_irrefl _)]
    exact .finite .zero (unity_pos.trans unity_lt_beyond)

/-! ## Whole parts -/

/-- **Truncated to a whole number.** -/
theorem Counts.toUInt64_eq {u : UnpackedFloat} {n : Nat} (hu : Counts u n)
    (hn : n / unity < 2 ^ 64) : u.toUInt64.toNat = n / unity := by
  cases hu with
  | finite hu hlt =>
    change (UInt64.ofNatClamp (u.toInt 0 (UInt64.size - 1)).toNat).toNat = n / unity
    rw [hu.toInt_eq, Int.toNat_natCast, UInt64.ofNatClamp_eq_ofNat _ hn,
      UInt64.toNat_ofNat_of_lt' hn]
  | infinity =>
    obtain ⟨b, hb, hbeyond⟩ := exists_beyond_eq
    obtain ⟨c, hc, hunity⟩ := exists_unity_eq
    rw [Nat.div_lt_iff_lt_mul unity_pos, hbeyond, hunity, ← Nat.pow_add,
      Nat.pow_lt_pow_iff_right Nat.one_lt_two] at hn
    omega

/-! ## The order of doubles from one on -/

section

variable {x y z w : Float}

theorem exists_counts (hx : 1 ≤ x) : ∃ m, unity ≤ m ∧ Counts x.toModel.unpack m := by
  obtain ⟨m, hm⟩ := counts_one.exists_of_le unity_pos (le_iff_unpack.mp hx)
  exact ⟨m, (counts_one.le_iff hm).mp hx, hm⟩

theorem exists_counts_of_le (hx : 1 ≤ x) (h : x ≤ y) :
    ∃ m n, unity ≤ m ∧ m ≤ n ∧ Counts x.toModel.unpack m ∧ Counts y.toModel.unpack n := by
  obtain ⟨m, hle, hm⟩ := exists_counts hx
  obtain ⟨n, hn⟩ := hm.exists_of_le (unity_pos.trans_le hle) (le_iff_unpack.mp h)
  exact ⟨m, n, hle, (hm.le_iff hn).mp h, hm, hn⟩

theorem one_le_one : (1 : Float) ≤ 1 :=
  (counts_one.le_iff counts_one).mpr (Nat.le_refl unity)

/-- A double that is at least one is a number. -/
theorem le_self (hx : 1 ≤ x) : x ≤ x := by
  obtain ⟨m, -, hm⟩ := exists_counts hx
  exact (hm.le_iff hm).mpr (Nat.le_refl m)

theorem le_through (hx : 1 ≤ x) (h : x ≤ y) (h' : y ≤ z) : x ≤ z := by
  obtain ⟨m, n, hle, hmn, hm, hn⟩ := exists_counts_of_le hx h
  obtain ⟨k, hk⟩ := hn.exists_of_le (unity_pos.trans_le (hle.trans hmn)) (le_iff_unpack.mp h')
  exact (hm.le_iff hk).mpr (hmn.trans ((hn.le_iff hk).mp h'))

/-- **Multiplication keeps the order.** -/
theorem product_mono (hx : 1 ≤ x) (h : x ≤ y) (hz : 1 ≤ z) (h' : z ≤ w) : x * z ≤ y * w := by
  obtain ⟨m, m', hone, hle, hm, hm'⟩ := exists_counts_of_le hx h
  obtain ⟨n, n', hone', hle', hn, hn'⟩ := exists_counts_of_le hz h'
  have hmul := hm.mul hn (.inr hone') (.inr hone)
  have hmul' := hm'.mul hn' (.inr (hone'.trans hle')) (.inr (hone.trans hle))
  exact (hmul.le_iff hmul').mpr (times_mono hle hle')

/-- A factor that is at least one does not make less. -/
theorem le_product (hx : 1 ≤ x) (hy : 1 ≤ y) : x ≤ y * x := by
  obtain ⟨m, hone, hm⟩ := exists_counts hx
  obtain ⟨n, hone', hn⟩ := exists_counts hy
  refine (hm.le_iff (hn.mul hm (.inr hone) (.inr hone'))).mpr ?_
  calc m = times unity m := (times_comm unity m ▸ times_unity hm).symm
    _ ≤ times n m := times_mono hone' (Nat.le_refl m)

theorem one_le_product (hx : 1 ≤ x) (hy : 1 ≤ y) : 1 ≤ y * x :=
  le_through one_le_one hx (le_product hx hy)

end

end Automation.Decimal
