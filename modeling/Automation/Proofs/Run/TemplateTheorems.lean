/-
Automation.Proofs.Run.TemplateTheorems — how a text splits into pieces.

`Reads s pieces` says what the pieces of a text are, without saying how
they are found: each placeholder opens at the leftmost opening braces that
are left and closes at the nearest closing braces behind them, and the
last literal has no complete placeholder in it. A text reads in one way
only, and `pieces` finds it (`reads_iff`).

`Whole s path` is the other form of a text, one placeholder with blanks
around it. Its closing braces are the last two characters of the text, so
they are not always the nearest ones: `pieces_of_whole` compares the two.
-/
import Automation.Run.Template
import Automation.Proofs.Text.FindTheorems

namespace Automation.Template

open Automation.Text (CutAt cut_eq_some_iff cut_eq_none_iff contains_iff)

/-! ## Reading a text -/

/-- No opening braces in the text have closing braces behind them. -/
def Plain (s : List Char) : Prop :=
  ∀ before path after, s ≠ before ++ opening ++ path ++ closing ++ after

/-- What the pieces of a text are. -/
inductive Reads : List Char → List Piece → Prop where
  | plain {s : List Char} (h : Plain s) : Reads s [.literal s]
  | placeholder {s before rest path after : List Char} {behind : List Piece}
      (opened : CutAt opening s before rest) (closed : CutAt closing rest path after)
      (h : Reads after behind) : Reads s (.literal before :: .placeholder path :: behind)

/-- A text with a placeholder is not plain. -/
theorem not_plain_of_cutAt {s before rest path after : List Char}
    (opened : CutAt opening s before rest) (closed : CutAt closing rest path after) :
    ¬ Plain s := fun h =>
  h before path after <| by simp only [opened.eq, closed.eq, List.append_assoc]

/-- A text reads in one way only. -/
theorem Reads.unique {s : List Char} {ps qs : List Piece} (h : Reads s ps) (h' : Reads s qs) :
    ps = qs := by
  induction h generalizing qs with
  | plain h =>
    cases h' with
    | plain => rfl
    | placeholder opened closed => exact absurd h (not_plain_of_cutAt opened closed)
  | placeholder opened closed _ ih =>
    cases h' with
    | plain h' => exact absurd h' (not_plain_of_cutAt opened closed)
    | placeholder opened' closed' h' =>
      obtain ⟨rfl, rfl⟩ := opened.unique opened'
      obtain ⟨rfl, rfl⟩ := closed.unique closed'
      rw [ih h']

/-! ## Finding the pieces -/

/-- The first placeholder opens at the leftmost opening braces and closes
at the nearest closing braces. -/
theorem first?_eq_some_iff {s before path after : List Char} :
    first? s = some (before, path, after) ↔
      ∃ rest, CutAt opening s before rest ∧ CutAt closing rest path after := by
  simp only [first?, Option.bind_eq_bind, Option.bind_eq_some_iff, Option.pure_def,
    Option.some.injEq, Prod.mk.injEq, Prod.exists, cut_eq_some_iff]
  constructor
  · rintro ⟨b, rest, opened, p, a, closed, rfl, rfl, rfl⟩
    exact ⟨rest, opened, closed⟩
  · rintro ⟨rest, opened, closed⟩
    exact ⟨before, rest, opened, path, after, closed, rfl, rfl, rfl⟩

/-- Only a plain text has no first placeholder. -/
theorem first?_eq_none_iff {s : List Char} : first? s = none ↔ Plain s := by
  constructor
  · rintro hnone before path after hs
    have hs' : s = before ++ opening ++ (path ++ closing ++ after) := by
      simpa only [List.append_assoc] using hs
    obtain ⟨⟨b, rest⟩, hcut⟩ := Option.isSome_iff_exists.1 <|
      Text.cut_isSome_of_isInfix ⟨before, _, hs'.symm⟩
    have opened := cut_eq_some_iff.1 hcut
    -- The leftmost opening braces have these closing braces behind them too.
    have hclosing : closing <:+: rest :=
      List.IsInfix.trans ⟨path, after, rfl⟩ (opened.suffix_after hs').isInfix
    obtain ⟨⟨p, a⟩, hcut'⟩ := Option.isSome_iff_exists.1 (Text.cut_isSome_of_isInfix hclosing)
    have hsome := first?_eq_some_iff.2 ⟨rest, opened, cut_eq_some_iff.1 hcut'⟩
    simp [hnone] at hsome
  · intro h
    refine Option.eq_none_iff_forall_not_mem.2 fun ⟨before, path, after⟩ hmem => ?_
    obtain ⟨rest, opened, closed⟩ := first?_eq_some_iff.1 (Option.mem_def.1 hmem)
    exact not_plain_of_cutAt opened closed h

/-- With enough fuel the pieces found are those of the text. -/
theorem reads_piecesWithin {fuel : Nat} {s : List Char} (h : s.length ≤ fuel) :
    Reads s (piecesWithin fuel s) := by
  induction fuel generalizing s with
  | zero =>
    obtain rfl := List.length_eq_zero_iff.1 (Nat.le_zero.1 h)
    exact .plain (first?_eq_none_iff.1 rfl)
  | succ fuel ih =>
    cases hf : first? s with
    | none => simpa [piecesWithin, hf] using Reads.plain (first?_eq_none_iff.1 hf)
    | some found =>
      obtain ⟨before, path, after⟩ := found
      obtain ⟨rest, opened, closed⟩ := first?_eq_some_iff.1 hf
      have hlen := congrArg List.length opened.eq
      have hlen' := congrArg List.length closed.eq
      simp only [List.length_append, opening, closing, List.length_cons, List.length_nil]
        at hlen hlen'
      simpa [piecesWithin, hf] using Reads.placeholder opened closed (ih (by omega))

/-- The pieces of a text are those it reads as. -/
theorem reads_iff {s : List Char} {ps : List Piece} : Reads s ps ↔ ps = pieces s := by
  have hpieces : Reads s (pieces s) := reads_piecesWithin (Nat.le_refl _)
  constructor
  · exact fun h => h.unique hpieces
  · rintro rfl
    exact hpieces

/-- A plain text is one literal. -/
theorem pieces_of_plain {s : List Char} (h : Plain s) : pieces s = [.literal s] :=
  (reads_iff.1 (.plain h)).symm

/-- A text shorter than both marks together is plain. -/
theorem plain_of_length {s : List Char} (h : s.length < 4) : Plain s := by
  rintro before path after rfl
  simp only [List.length_append, opening, closing, List.length_cons, List.length_nil] at h
  omega

/-! ## Texts that are one placeholder -/

/-- The text is one placeholder with blanks around it, and its path has no
braces of either kind inside. -/
structure Whole (s path : List Char) : Prop where
  eq : Text.trim s = opening ++ path ++ closing
  unopened : ¬ opening <:+: path
  unclosed : ¬ closing <:+: path

/-- `whole?` gives the path of a text that is one placeholder. -/
theorem whole?_eq_some_iff {s path : List Char} : whole? s = some path ↔ Whole s path := by
  have hframe : ∀ inner : List Char,
      ((opening ++ inner ++ closing).drop 2).take ((opening ++ inner ++ closing).length - 4)
        = inner := by
    intro inner
    simp [opening, closing]
  simp only [whole?]
  constructor
  · intro h
    split at h
    · next hmarks =>
      obtain ⟨hpre, hsuf⟩ := Bool.and_eq_true _ _ ▸ hmarks
      obtain ⟨rest, hrest⟩ := List.isPrefixOf_iff_prefix.1 hpre
      obtain ⟨inner, hinner⟩ := List.isSuffixOf_iff_suffix.1 hsuf
      have heq : Text.trim s = opening ++ inner ++ closing := by
        rw [← hrest] at hinner ⊢
        simp [opening] at hinner
        simp [hinner, List.append_assoc]
      rw [heq, hframe inner] at h
      split at h
      · simp at h
      · next hfree =>
        obtain rfl : inner = path := Option.some.inj h
        simp only [Bool.or_eq_true, not_or, contains_iff] at hfree
        exact ⟨heq, hfree.1, hfree.2⟩
    · simp at h
  · intro h
    rw [h.eq, hframe path, if_pos, if_neg]
    · simp only [Bool.or_eq_true, not_or, contains_iff]
      exact ⟨h.unopened, h.unclosed⟩
    · rw [Bool.and_eq_true]
      exact ⟨by simp [opening, closing], List.isSuffixOf_iff_suffix.2 ⟨path, rfl⟩⟩

/-- What a text takes from the second of two parts that it begins. -/
theorem eq_append_take {path rest b d : List Char} (heq : path ++ rest = b ++ d)
    (hle : b.length ≤ path.length) : path = b ++ d.take (path.length - b.length) := by
  have htake := congrArg (List.take path.length) heq
  rwa [List.take_left, List.take_append, List.take_of_length_le hle] at htake

/-- Closing braces in `path` followed by closing braces begin at the last
character of the path or behind it. -/
theorem length_le_of_closing {path b a : List Char} (h : ¬ closing <:+: path)
    (heq : path ++ closing = b ++ closing ++ a) : path.length ≤ b.length + 1 := by
  by_contra hlt
  have hpath := eq_append_take (heq.trans (List.append_assoc ..)) (by omega)
  rw [List.take_append, List.take_of_length_le (by simp [closing]; omega)] at hpath
  exact h ⟨b, _, by rw [List.append_assoc]; exact hpath.symm⟩

/-- One placeholder and nothing else, as pieces. -/
def lone (path : List Char) : List Piece :=
  [.literal [], .placeholder path, .literal []]

/-- The nearest closing braces end a whole placeholder unless a closing
brace is the last character of its path; then the placeholder ends one
character earlier and that brace is left over. -/
theorem pieces_of_whole {s path : List Char} (h : Whole s path) :
    (¬ ['}'] <:+ path → pieces (Text.trim s) = lone path) ∧
    (∀ q, path = q ++ ['}'] →
      pieces (Text.trim s) = [.literal [], .placeholder q, .literal ['}']]) := by
  have opened : CutAt opening (Text.trim s) [] (path ++ closing) :=
    ⟨by simp [h.eq], fun _ _ _ => Nat.zero_le _⟩
  constructor
  · intro hend
    have closed : CutAt closing (path ++ closing) path [] := by
      refine ⟨by simp, fun b a heq => ?_⟩
      have hle := length_le_of_closing h.unclosed heq
      by_contra hlt
      -- One place before the end, the braces would take in the last character of the path.
      have hpath := eq_append_take (heq.trans (List.append_assoc ..)) (by omega)
      rw [show path.length - b.length = 1 by omega] at hpath
      exact hend ⟨b, hpath.symm⟩
    exact (reads_iff.1 (.placeholder opened closed
      (.plain (plain_of_length (by simp))))).symm
  · rintro q rfl
    have closed : CutAt closing (q ++ ['}'] ++ closing) q ['}'] := by
      refine ⟨by simp [closing], fun b a heq => ?_⟩
      simpa using length_le_of_closing h.unclosed heq
    exact (reads_iff.1 (.placeholder opened closed
      (.plain (plain_of_length (by simp))))).symm

end Automation.Template
