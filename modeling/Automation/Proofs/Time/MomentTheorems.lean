/-
Automation.Proofs.Time.MomentTheorems — a moment reads back from what is
written of it.

The text of a moment is put together from numbers of a fixed width and the
marks between them. Each reader takes exactly its own part off the front of
the text (`part_run`, `separator_run`, `readYear_run`, `readFraction_run`),
and `readLocal_run` puts the parts together. The offset that is written is
none, so nothing is converted (`ofLocal_zero`).
-/
import Mathlib.Algebra.Group.Nat.Defs
import Automation.Proofs.Text.NumeralTheorems
import Automation.Time.Clock

namespace Automation

namespace Time.Moment

open Automation.Text (padded)

/-! ## Reading the parts -/

/-- What is read first is read off the front of the text. -/
theorem run_bind_ok {α β : Type} {r : Reading α} {f : α → Reading β} {s rest : List Char} {a : α}
    (h : r.run s = .ok (a, rest)) : (r >>= f).run s = (f a).run rest := by
  rw [StateT.run_bind, h]
  rfl

theorem get_run (s : List Char) : (get : Reading (List Char)).run s = .ok (s, s) := rfl

theorem set_run (s rest : List Char) : (set rest : Reading PUnit).run s = .ok ((), rest) := rfl

theorem blanks_run {s : List Char} (h : Text.trimStart s = s) : blanks.run s = .ok ((), s) := by
  rw [blanks, StateT.run_modify, h]
  rfl

/-- As many digits as may be read are read. -/
theorem number_run {width n : Nat} (hwidth : 0 < width) (h : n < 10 ^ width) (rest : List Char) :
    (number (some width)).run (padded width n ++ rest) = .ok (n, rest) := by
  have hlength := Text.length_padded hwidth h
  have htaken : ((padded width n ++ rest).takeWhile Char.isDigit).take width = padded width n := by
    rw [List.takeWhile_append_of_pos fun c hc => Text.isDigit_of_mem_padded hc,
      List.take_append_of_le_length (Nat.le_of_eq hlength.symm), List.take_of_length_le
      (Nat.le_of_eq hlength)]
  have hne : (padded width n ++ rest).isEmpty = false := by simp [Text.padded_ne_nil]
  simp only [number, StateT.run_bind, StateT.run_get, pure_bind, hne, htaken,
    Text.natural?_padded]
  simp [hlength]
  rfl

/-- All digits up to another character are read, if these are not too
many. -/
theorem number_run_until {width n : Nat} {most : Option Nat} {c : Char} (rest : List Char)
    (hmost : ∀ k ∈ most, (padded width n).length ≤ k) (hc : c.isDigit = false) :
    (number most).run (padded width n ++ c :: rest) = .ok (n, c :: rest) := by
  have hfound : (padded width n ++ c :: rest).takeWhile Char.isDigit = padded width n := by
    rw [List.takeWhile_append_of_pos fun c hc => Text.isDigit_of_mem_padded hc,
      List.takeWhile_cons_of_neg (by simp [hc]), List.append_nil]
  have hne : (padded width n ++ c :: rest).isEmpty = false := by simp [Text.padded_ne_nil]
  cases most with
  | none =>
    simp only [number, StateT.run_bind, StateT.run_get, pure_bind, hne, hfound,
      Text.natural?_padded]
    simp
    rfl
  | some k =>
    have htaken : (padded width n).take k = padded width n := List.take_of_length_le (hmost k rfl)
    simp only [number, StateT.run_bind, StateT.run_get, pure_bind, hne, hfound, htaken,
      Text.natural?_padded]
    simp
    rfl

theorem within_run {least most n : Int} (h : least ≤ n ∧ n ≤ most) (s : List Char) :
    (within least most n).run s = .ok ((), s) := by
  rw [within, if_pos h]
  rfl

theorem part_run {least most n : Nat} (hleast : least ≤ n) (hmost : n ≤ most)
    (h : n < 10 ^ 2) (rest : List Char) :
    (part least most).run (padded 2 n ++ rest) = .ok (n, rest) := by
  rw [part, run_bind_ok (blanks_run (Text.trimStart_padded 2 n rest)),
    run_bind_ok (number_run (by decide) h rest), run_bind_ok (within_run (by omega) rest)]
  rfl

theorem char_run {test : Char → Bool} {c : Char} (h : test c) (rest : List Char) :
    (char test).run (c :: rest) = .ok ((), rest) := by
  simp only [char, StateT.run_bind, StateT.run_get, pure_bind, h, if_true]
  rfl

theorem blanks_run_cons {c : Char} (h : Text.isBlank c = false) (rest : List Char) :
    blanks.run (c :: rest) = .ok ((), c :: rest) :=
  blanks_run (List.dropWhile_cons_of_neg (by simp [h]))

theorem separator_run {c : Char} (h : Text.isBlank c = false) (rest : List Char) :
    (separator c).run (c :: rest) = .ok ((), rest) := by
  rw [separator, run_bind_ok (blanks_run_cons h rest)]
  exact char_run (beq_self_eq_true c) rest

/-- The year, in front of the mark behind it. -/
theorem readYear_run {year : Int} (h : years.1 ≤ year ∧ year ≤ years.2) (rest : List Char) :
    readYear.run (writeYear year ++ '-' :: rest) = .ok (year, '-' :: rest) := by
  have hbounds : (-2147483648 : Int) ≤ year ∧ year ≤ 2147483647 := by
    simp only [years] at h
    omega
  have hwithin := within_run hbounds ('-' :: rest)
  have hsigned : ∀ n : Nat, (number none).run (padded 4 n ++ '-' :: rest) = .ok (n, '-' :: rest) :=
    fun n => number_run_until rest (by simp) rfl
  unfold writeYear
  split
  · next hfour =>
    have hyear : ((year.toNat : Nat) : Int) = year := Int.toNat_of_nonneg hfour.1
    have hnumber : (number (some 4)).run (padded 4 year.toNat ++ '-' :: rest) =
        .ok (year.toNat, '-' :: rest) := number_run (by decide) (by omega) _
    rw [readYear, run_bind_ok (blanks_run (Text.trimStart_padded 4 _ _)), run_bind_ok (get_run _)]
    obtain ⟨c, digits, hc, hcons⟩ := Text.padded_append_eq_cons 4 year.toNat ('-' :: rest)
    rw [hcons] at hnumber ⊢
    split
    · next heq => cases heq; cases hc
    · next heq => cases heq; cases hc
    · dsimp only
      rw [run_bind_ok hnumber, pure_bind, hyear, run_bind_ok hwithin]
      rfl
  · split
    · next hneg =>
      have hyear : -((year.natAbs : Nat) : Int) = year := by omega
      rw [List.cons_append, readYear, run_bind_ok (blanks_run_cons rfl _), run_bind_ok (get_run _)]
      refine (run_bind_ok (set_run _ _)).trans ?_
      rw [run_bind_ok (hsigned _), pure_bind, hyear, run_bind_ok hwithin]
      rfl
    · next hneg =>
      have hyear : ((year.natAbs : Nat) : Int) = year := by omega
      rw [List.cons_append, readYear, run_bind_ok (blanks_run_cons rfl _), run_bind_ok (get_run _)]
      refine (run_bind_ok (set_run _ _)).trans ?_
      rw [run_bind_ok (hsigned _), pure_bind, hyear, run_bind_ok hwithin]
      rfl

/-- A fraction in so many digits, in front of the mark behind it. -/
theorem readFraction_run_padded {width n : Nat} (hwidth : 0 < width) (hmost : width ≤ 9)
    (h : n < 10 ^ width) :
    readFraction.run ('.' :: padded width n ++ ['Z']) = .ok (n * 10 ^ (9 - width), ['Z']) := by
  have hlength := Text.length_padded hwidth h
  have hnumber : (number (some 9)).run (padded width n ++ ['Z']) = .ok (n, ['Z']) :=
    number_run_until [] (by simp [hlength, hmost]) rfl
  rw [List.cons_append, readFraction, run_bind_ok (get_run _)]
  refine (run_bind_ok (set_run _ _)).trans ?_
  rw [run_bind_ok hnumber, run_bind_ok (get_run _), List.length_append, hlength,
    Nat.add_sub_cancel]
  rfl

/-- The fraction, in front of the mark behind it. -/
theorem readFraction_run {nanosecond : Nat} (h : nanosecond < 1000000000) :
    readFraction.run (writeFraction nanosecond ++ ['Z']) = .ok (nanosecond, ['Z']) := by
  unfold writeFraction
  split
  · next hzero =>
    rw [eq_of_beq hzero]
    rfl
  split
  · next hmillis =>
    have heq : nanosecond / 1000000 * 10 ^ (9 - 3) = nanosecond := by
      have := eq_of_beq hmillis
      omega
    rw [readFraction_run_padded (by decide) (by decide) (by omega), heq]
  split
  · next hmicros =>
    have heq : nanosecond / 1000 * 10 ^ (9 - 6) = nanosecond := by
      have := eq_of_beq hmicros
      omega
    rw [readFraction_run_padded (by decide) (by decide) (by omega), heq]
  · rw [readFraction_run_padded (by decide) (by decide) (by omega), Nat.sub_self, Nat.pow_zero,
      Nat.mul_one]

/-! ## Reading a moment -/

/-- A time that is not ahead of UTC is the same in UTC. -/
theorem ofLocal_zero {m : Moment} (hhour : m.hour ≤ 23) (hminute : m.minute ≤ 59) :
    m.ofLocal 0 = m := by
  obtain ⟨year, month, day, hour, minute, second, nanosecond⟩ := m
  dsimp only at hhour hminute
  have hday : (((hour : Int) * 60 + minute) % 1440).toNat = hour * 60 + minute := by omega
  have hparts : (hour * 60 + minute) / 60 = hour ∧ (hour * 60 + minute) % 60 = minute := by omega
  simp only [ofLocal, minutes, Int.sub_zero, hday, hparts.1, hparts.2]
  rw [if_neg (by omega), if_neg (by omega)]

/-- A date, a time of day and no offset. -/
theorem readLocal_run {m : Moment} (h : m.Valid) :
    readLocal.run m.render.toList = .ok ((m, 0), []) := by
  obtain ⟨hyear, hyear', hmonth, hmonth', hday, hday', hhour, hminute, hsecond, hnano⟩ := h
  have hmost : daysOf m.year m.month ≤ 31 := by
    unfold daysOf
    split
    · split <;> decide
    · split <;> decide
  simp only [render, String.toList_ofList, List.append_assoc, List.cons_append]
  rw [readLocal, run_bind_ok (readYear_run ⟨hyear, hyear'⟩ _), run_bind_ok (separator_run rfl _),
    run_bind_ok (part_run hmonth hmonth' (by omega) _), run_bind_ok (separator_run rfl _),
    run_bind_ok (part_run hday (by omega) (by omega) _), run_bind_ok (char_run rfl _),
    run_bind_ok (part_run (Nat.zero_le _) hhour (by omega) _), run_bind_ok (separator_run rfl _),
    run_bind_ok (part_run (Nat.zero_le _) hminute (by omega) _), run_bind_ok (separator_run rfl _),
    run_bind_ok (part_run (Nat.zero_le _) hsecond (by omega) _),
    run_bind_ok (readFraction_run hnano), run_bind_ok (blanks_run_cons rfl [])]
  rfl

/-- What is read is a moment of the calendar, converted to UTC from one that
is written. -/
theorem read_eq_ok {text : String} {m : Moment} :
    read text = .ok m ↔ ∃ written offset rest,
      readLocal.run text.toList = .ok ((written, offset), rest) ∧ Text.trimStart rest = [] ∧
      written.Valid ∧ (-1440 < offset ∧ offset < 1440) ∧ m = written.ofLocal offset ∧ m.Valid := by
  unfold read
  cases readLocal.run text.toList with
  | error e => simp [bind, Except.bind]
  | ok found =>
    obtain ⟨⟨written, offset⟩, rest⟩ := found
    simp only [bind, Except.bind, pure, Except.pure, throw, throwThe, MonadExceptOf.throw]
    constructor
    · intro h
      split at h
      · cases h
      split at h
      · cases h
      split at h
      · cases h
      split at h
      · cases h
      · next hrest hwritten hoffset hvalid =>
        cases h
        simp only [Bool.not_eq_true', Bool.not_eq_false, decide_eq_true_eq, List.isEmpty_iff,
          Bool.or_eq_true, not_or, Int.not_le] at hrest hwritten hoffset hvalid
        exact ⟨written, offset, rest, rfl, hrest, hwritten, hoffset, rfl, hvalid⟩
    · rintro ⟨_, _, _, hfound, hrest, hwritten, hoffset, rfl, hvalid⟩
      cases hfound
      simp [hrest, hwritten, hvalid, Int.not_le.mpr hoffset.1, Int.not_le.mpr hoffset.2]

/-- **A moment reads back from its text.** -/
theorem read_render {m : Moment} (h : m.Valid) : read m.render = .ok m := by
  have hlocal : m = m.ofLocal 0 := (ofLocal_zero h.2.2.2.2.2.2.1 h.2.2.2.2.2.2.2.1).symm
  exact read_eq_ok.mpr ⟨m, 0, [], readLocal_run h, rfl, h, by decide, hlocal, h⟩

/-- What is read is a moment of the calendar. -/
theorem read_valid {text : String} {m : Moment} (h : read text = .ok m) : m.Valid := by
  obtain ⟨_, _, _, _, _, _, _, _, hvalid⟩ := read_eq_ok.mp h
  exact hvalid

end Time.Moment

end Automation
