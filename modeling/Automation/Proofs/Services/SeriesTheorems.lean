/-
Automation.Proofs.Services.SeriesTheorems — the ids of a series are told
apart by their numbers.
-/
import Automation.Services.Series

namespace Automation

/-- Zeros in front do not change what the digits say. -/
theorem Text.ofDigitChars_padded (width n : Nat) : Nat.ofDigitChars 10 (padded width n) 0 = n := by
  unfold padded
  rw [Nat.ofDigitChars_append, Nat.ofDigitChars_replicate_zero, Nat.mul_zero,
    Nat.ofDigitChars_ten_toDigits]

theorem Series.id_inj {series : Series} {m n : Nat} : series.id m = series.id n ↔ m = n := by
  refine ⟨?_, fun h => by rw [h]⟩
  intro h
  have hdigits : Text.padded series.digits m = Text.padded series.digits n := by
    unfold Series.id at h
    exact String.ofList_injective (String.append_right_inj _ |>.mp h)
  rw [← Text.ofDigitChars_padded series.digits m, hdigits, Text.ofDigitChars_padded]

end Automation
