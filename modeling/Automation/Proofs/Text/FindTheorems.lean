/-
Automation.Proofs.Text.FindTheorems — a cut falls at the leftmost mark.

`CutAt mark s before after` says, without a search, where the leftmost
occurrence of a mark in a text stands. There is at most one such place
(`CutAt.unique`), `cut` finds it when there is one, and it finds nothing
only in a text without the mark.
-/
import Automation.Text.Find
import Mathlib.Data.List.Infix

namespace Automation.Text

/-- The leftmost `mark` in `s` stands between `before` and `after`. -/
structure CutAt (mark s before after : List Char) : Prop where
  /-- The mark stands there. -/
  eq : s = before ++ mark ++ after
  /-- No occurrence begins further to the left. -/
  first : ∀ b a, s = b ++ mark ++ a → before.length ≤ b.length

namespace CutAt

variable {mark s before after : List Char}

/-- A text with a leftmost mark has the mark in it. -/
theorem isInfix (h : CutAt mark s before after) : mark <:+: s :=
  ⟨before, after, h.eq.symm⟩

/-- The leftmost mark is in one place only. -/
theorem unique {b a : List Char} (h : CutAt mark s before after) (h' : CutAt mark s b a) :
    before = b ∧ after = a := by
  have hlen : before.length = b.length :=
    Nat.le_antisymm (h.first _ _ h'.eq) (h'.first _ _ h.eq)
  have heq : before ++ (mark ++ after) = b ++ (mark ++ a) := by
    simpa only [List.append_assoc] using h.eq.symm.trans h'.eq
  obtain ⟨hb, ha⟩ := List.append_inj heq hlen
  exact ⟨hb, List.append_cancel_left ha⟩

/-- What follows any occurrence of the mark is a tail of what follows the
leftmost one. -/
theorem suffix_after {b a : List Char} (h : CutAt mark s before after)
    (hs : s = b ++ mark ++ a) : a <:+ after := by
  have htail : a <:+ s := ⟨b ++ mark, hs.symm⟩
  have hafter : after <:+ s := ⟨before ++ mark, h.eq.symm⟩
  refine List.suffix_of_suffix_length_le htail hafter ?_
  have hlen := congrArg List.length (h.eq.symm.trans hs)
  have hle := h.first b a hs
  simp only [List.length_append] at hlen
  omega

end CutAt

variable {mark s before after : List Char}

/-- A text that has the mark is cut. -/
theorem cut_isSome_of_isInfix (h : mark <:+: s) : (cut mark s).isSome := by
  induction s with
  | nil => simp_all [cut]
  | cons c rest ih =>
    unfold cut
    split
    · rfl
    · next hp =>
      rcases List.infix_cons_iff.1 h with hpre | hin
      · exact absurd (List.isPrefixOf_iff_prefix.2 hpre) hp
      · simpa using ih hin

/-- No mark begins to the left of the cut. -/
theorem length_before_le {b a : List Char} (h : cut mark s = some (before, after))
    (hs : s = b ++ mark ++ a) : before.length ≤ b.length := by
  induction s generalizing before b with
  | nil =>
    have hb := congrArg List.length (cut_eq h)
    simp only [List.length_nil, List.length_append] at hb
    omega
  | cons c rest ih =>
    unfold cut at h
    split at h
    · simp_all
    · next hp =>
      obtain ⟨⟨b', a'⟩, hc, he⟩ := Option.map_eq_some_iff.1 h
      simp only [Prod.mk.injEq] at he
      obtain ⟨rfl, rfl⟩ := he
      cases b with
      | nil =>
        refine absurd (List.isPrefixOf_iff_prefix.2 ⟨a, ?_⟩) hp
        simpa using hs.symm
      | cons d bs =>
        obtain ⟨rfl, hrest⟩ : c = d ∧ rest = bs ++ mark ++ a := by simpa using hs
        simpa using ih hc hrest

/-- A text is cut at the leftmost mark. -/
theorem cut_eq_some_iff : cut mark s = some (before, after) ↔ CutAt mark s before after := by
  constructor
  · exact fun h => ⟨cut_eq h, fun _ _ hs => length_before_le h hs⟩
  · intro h
    obtain ⟨⟨b, a⟩, hc⟩ := Option.isSome_iff_exists.1 (cut_isSome_of_isInfix h.isInfix)
    obtain ⟨rfl, rfl⟩ := h.unique ⟨cut_eq hc, fun _ _ hs => length_before_le hc hs⟩
    exact hc

/-- Only a text without the mark is not cut. -/
theorem cut_eq_none_iff : cut mark s = none ↔ ¬ mark <:+: s := by
  constructor
  · intro h hin
    simpa [h] using cut_isSome_of_isInfix hin
  · intro h
    refine Option.eq_none_iff_forall_not_mem.2 fun ⟨b, a⟩ hc => h ?_
    exact (cut_eq_some_iff.1 (Option.mem_def.1 hc)).isInfix

/-- A text contains a mark that stands somewhere in it. -/
theorem contains_iff : contains mark s = true ↔ mark <:+: s := by
  rw [← not_iff_not, ← cut_eq_none_iff, contains, Bool.not_eq_true, Option.isSome_eq_false_iff,
    Option.isNone_iff_eq_none]

end Automation.Text
