/-
Automation.Proofs.Text.NumeralTheorems — what digits say.

A number written in digits, with zeros in front or not, reads back
(`natural?_padded`), and nothing but digits is read as a number
(`natural?_eq_some_iff`). As an index one plus sign may stand in front
(`unsigned?_eq_some_iff`).
-/
import Mathlib.Algebra.Group.Nat.Defs
import Automation.Proofs.Services.SeriesTheorems
import Automation.Text.Blank

namespace Automation.Text

/-! ## Digits -/

theorem naturalFrom_eq {s : List Char} (h : ∀ c ∈ s, c.isDigit) (start : Nat) :
    naturalFrom start s = some (Nat.ofDigitChars 10 s start) := by
  induction s generalizing start with
  | nil => rfl
  | cons c rest ih =>
    obtain ⟨hc, hrest⟩ := List.forall_mem_cons.mp h
    rw [naturalFrom, digit?, if_pos hc, Option.bind_some, ih hrest, Nat.ofDigitChars_cons,
      Nat.mul_comm]

theorem isDigit_of_mem_padded {width n : Nat} {c : Char} (h : c ∈ padded width n) : c.isDigit := by
  rcases List.mem_append.mp h with h | h
  · rw [List.eq_of_mem_replicate h]
    rfl
  · exact Nat.isDigit_of_mem_toDigits (by decide) (by decide) h

theorem padded_ne_nil (width n : Nat) : padded width n ≠ [] :=
  List.append_ne_nil_of_right_ne_nil _ Nat.toDigits_ne_nil

theorem length_padded {width n : Nat} (hwidth : 0 < width) (h : n < 10 ^ width) :
    (padded width n).length = width := by
  have hle : (Nat.toDigits 10 n).length ≤ width :=
    (Nat.length_toDigits_le_iff (by decide) hwidth).mpr h
  simp [padded, hle]

/-- A number reads back from its digits. -/
theorem natural?_padded (width n : Nat) : natural? (padded width n) = some n := by
  unfold natural?
  rw [if_neg (by simp [padded_ne_nil]), naturalFrom_eq fun c hc => isDigit_of_mem_padded hc,
    ofDigitChars_padded]

/-- What begins with a number begins with a digit. -/
theorem padded_append_eq_cons (width n : Nat) (rest : List Char) :
    ∃ c digits, c.isDigit ∧ padded width n ++ rest = c :: digits := by
  obtain ⟨c, digits, hcons⟩ := List.exists_cons_of_ne_nil (padded_ne_nil width n)
  exact ⟨c, digits ++ rest, isDigit_of_mem_padded (hcons ▸ List.mem_cons_self),
    by rw [hcons, List.cons_append]⟩

/-- Nothing is trimmed off a number. -/
theorem trimStart_padded (width n : Nat) (rest : List Char) :
    trimStart (padded width n ++ rest) = padded width n ++ rest := by
  obtain ⟨c, digits, hc, hcons⟩ := padded_append_eq_cons width n rest
  have hblank : isBlank c = false := by
    have hbounds : 48 ≤ c.toNat ∧ c.toNat ≤ 57 := by
      simpa [Char.isDigit, UInt32.le_iff_toNat_le] using hc
    unfold isBlank
    simp
    omega
  unfold trimStart
  rw [hcons, List.dropWhile_cons_of_neg (by simp [hblank])]

/-! ## What is read as a number -/

/-- What is read as a number consists of digits. -/
theorem isDigit_of_naturalFrom {s : List Char} {start n : Nat} (h : naturalFrom start s = some n) :
    ∀ c ∈ s, c.isDigit := by
  induction s generalizing start with
  | nil => simp
  | cons c rest ih =>
    obtain ⟨d, hd, hrest⟩ := Option.bind_eq_some_iff.mp h
    refine List.forall_mem_cons.mpr ⟨?_, ih hrest⟩
    unfold digit? at hd
    split at hd
    · assumption
    · cases hd

theorem natural?_eq_some_iff {s : List Char} {n : Nat} :
    natural? s = some n ↔ s ≠ [] ∧ (∀ c ∈ s, c.isDigit) ∧ Nat.ofDigitChars 10 s 0 = n := by
  unfold natural?
  by_cases hs : s = []
  · simp [hs]
  · rw [if_neg (by simpa using hs)]
    constructor
    · intro h
      have hdigits := isDigit_of_naturalFrom h
      rw [naturalFrom_eq hdigits, Option.some.injEq] at h
      exact ⟨hs, hdigits, h⟩
    · rintro ⟨-, hdigits, rfl⟩
      exact naturalFrom_eq hdigits 0

/-- The text writes this number: digits, perhaps behind a plus sign. -/
def Writes (s : List Char) (n : Nat) : Prop :=
  ∃ digits, (s = digits ∨ s = '+' :: digits) ∧ digits ≠ [] ∧ (∀ c ∈ digits, c.isDigit) ∧
    Nat.ofDigitChars 10 digits 0 = n

theorem unsigned?_eq_some_iff {bound n : Nat} {s : List Char} :
    unsigned? bound s = some n ↔ Writes s n ∧ n ≤ bound := by
  have hplus : ∀ rest : List Char, ¬ ∀ c ∈ '+' :: rest, c.isDigit := fun rest h =>
    absurd (h '+' List.mem_cons_self) (by decide)
  unfold unsigned?
  simp only [Option.filter_eq_some_iff, decide_eq_true_iff, natural?_eq_some_iff]
  refine and_congr_left fun _ => ?_
  constructor
  · intro h
    split at h
    · exact ⟨_, .inr rfl, h⟩
    · exact ⟨_, .inl rfl, h⟩
  · rintro ⟨digits, rfl | rfl, hne, hdigits, hn⟩
    · split
      · exact absurd hdigits (hplus _)
      · exact ⟨hne, hdigits, hn⟩
    · exact ⟨hne, hdigits, hn⟩

end Automation.Text
