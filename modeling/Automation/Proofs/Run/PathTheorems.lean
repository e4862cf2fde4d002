/-
Automation.Proofs.Run.PathTheorems — which paths lead somewhere.

The segments of a path are the texts between its dots: a text without a
dot is one segment, and a dot ends the segment before it. Looking up a
path fails for one reason only, a first segment that is none of the four
roots (`Path.unknownRoot?`), and this does not depend on the context.
-/
import Automation.Run.Path
import Mathlib.Data.List.Basic

namespace Automation

open Automation.Json (Value Fields)

/-! ## Blanks -/

namespace Text

/-- Trimming takes only the ends away. -/
theorem trim_isInfix (s : List Char) : trim s <:+: s := by
  have hend : trimEnd (trimStart s) <+: trimStart s := by
    rw [← List.reverse_suffix, trimEnd, List.reverse_reverse]
    exact List.dropWhile_suffix _
  exact hend.isInfix.trans (List.dropWhile_suffix _).isInfix

/-- Nothing is dropped in front of a character that is no blank. -/
theorem dropWhile_isBlank_eq_self {s : List Char} (h : ∀ c ∈ s.head?, isBlank c = false) :
    s.dropWhile isBlank = s := by
  cases s with
  | nil => rfl
  | cons c rest => rw [List.dropWhile_cons, h c rfl, if_neg Bool.false_ne_true]

/-- Nothing is trimmed off a text that has no blank at either end. -/
theorem trim_eq_self {s : List Char} (hfirst : ∀ c ∈ s.head?, isBlank c = false)
    (hlast : ∀ c ∈ s.getLast?, isBlank c = false) : trim s = s := by
  rw [trim, trimStart, dropWhile_isBlank_eq_self hfirst, trimEnd,
    dropWhile_isBlank_eq_self (by simpa using hlast), List.reverse_reverse]

/-- A trimmed text does not begin with a blank. -/
theorem isBlank_head_of_trim {s : List Char} (h : trim s = s) :
    ∀ c ∈ s.head?, isBlank c = false := by
  cases s with
  | nil => simp
  | cons c rest =>
    rintro _ ⟨⟩
    by_contra hblank
    have hdrops : trim (c :: rest) = trim rest := by
      rw [trim, trimStart, List.dropWhile_cons, if_pos (by simpa using hblank)]
      rfl
    have hle := (trim_isInfix rest).length_le
    rw [← hdrops, h] at hle
    exact Nat.not_succ_le_self _ hle

/-- Trimming does not go past a character that is no blank. -/
theorem trim_append_cons {s rest : List Char} {c : Char} (hs : trim s = s)
    (hc : isBlank c = false) : trim (s ++ c :: rest) = s ++ c :: trimEnd rest := by
  have hstart : trimStart (s ++ c :: rest) = s ++ c :: rest := by
    refine dropWhile_isBlank_eq_self ?_
    cases s with
    | nil => simpa using hc
    | cons d s => exact isBlank_head_of_trim (s := d :: s) hs
  have hstop : List.dropWhile isBlank (c :: s.reverse) = c :: s.reverse :=
    dropWhile_isBlank_eq_self (by simpa using hc)
  rw [trim, hstart, trimEnd, trimEnd, List.reverse_append, List.reverse_cons, List.append_assoc,
    List.singleton_append, List.dropWhile_append, hstop]
  split
  · next hblank =>
    rw [List.isEmpty_iff.mp hblank, List.reverse_cons, List.reverse_reverse, List.reverse_nil]
  · simp

end Text

/-! ## Segments -/

namespace Path

/-- A text without a dot is one segment. -/
theorem segments_of_not_mem {s : List Char} (h : '.' ∉ s) : segments s = [s] := by
  induction s with
  | nil => rfl
  | cons c rest ih =>
    obtain ⟨hc, hrest⟩ := List.ne_and_not_mem_of_not_mem_cons h
    simp [segments, Ne.symm hc, ih hrest]

theorem segments_ne_nil (s : List Char) : segments s ≠ [] := by
  cases s with
  | nil => exact List.cons_ne_nil _ _
  | cons c rest =>
    unfold segments
    split
    · exact List.cons_ne_nil _ _
    · split <;> exact List.cons_ne_nil _ _

/-- A dot ends the segment before it. -/
theorem segments_append (a b : List Char) :
    segments (a ++ '.' :: b) = segments a ++ segments b := by
  induction a with
  | nil => simp [segments]
  | cons c rest ih =>
    by_cases hc : c = '.'
    · simp [segments, hc, ih]
    · cases hs : segments rest with
      | nil => exact absurd hs (segments_ne_nil rest)
      | cons s more => simp [segments, hc, ih, hs]

/-- The first dot ends the first segment. -/
theorem segments_append_dot {a b : List Char} (h : '.' ∉ a) :
    segments (a ++ '.' :: b) = a :: segments b := by
  rw [segments_append, segments_of_not_mem h, List.singleton_append]

/-- A text begins with its first segment. -/
theorem headD_segments (s : List Char) :
    (segments s).headD [] = s.takeWhile (· != '.') := by
  induction s with
  | nil => rfl
  | cons c rest ih =>
    by_cases hc : c = '.'
    · simp [segments, hc]
    · cases hs : segments rest with
      | nil => simp [segments, hc, hs, ← ih]
      | cons s more => simp [segments, hc, hs, ← ih]

/-! ## Steps -/

/-- Nothing is below `null`. -/
theorem foldl_step_null (segments : List (List Char)) :
    segments.foldl step .null = .null := by
  induction segments with
  | nil => rfl
  | cons s rest ih => exact ih

/-! ## Unknown roots -/

/-- What is wrong with the root of a path, if anything. -/
def unknownRoot? (path : List Char) : Option UnknownRoot :=
  let trimmed := Text.trim path
  let name := String.ofList (trimmed.takeWhile (· != '.'))
  if name ∈ ["variables", "tasks", "user", "environment"] then none
  else some ⟨name, String.ofList trimmed⟩

end Path

/-- Four names are those of roots. -/
theorem Root.named?_eq_none_iff {name : String} :
    Root.named? name = none ↔ name ∉ ["variables", "tasks", "user", "environment"] := by
  simp only [Root.named?, Root.names, Option.map_eq_none_iff, List.find?_eq_none, List.mem_cons,
    List.not_mem_nil, or_false, forall_eq_or_imp, forall_eq, beq_iff_eq, not_or,
    ne_comm (a := name), ← ne_eq]

namespace Context

/-- Looking up a path fails when its root is unknown, and with that error. -/
theorem resolve_eq_error_iff {c : Context} {path : List Char} {e : UnknownRoot} :
    c.resolve path = .error e ↔ Path.unknownRoot? path = some e := by
  simp only [resolve, resolveTrimmed, Path.unknownRoot?, Path.headD_segments]
  split
  · next root hroot =>
    have hmem : String.ofList ((Text.trim path).takeWhile (· != '.')) ∈
        ["variables", "tasks", "user", "environment"] := by
      by_contra hnot
      simp [Root.named?_eq_none_iff.2 hnot] at hroot
    simp [hmem]
  · next hroot =>
    rw [if_neg (Root.named?_eq_none_iff.1 hroot)]
    simp

end Context

end Automation
