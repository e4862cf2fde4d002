/-
Automation.Text.Find — searching a text for a mark.

`cut mark s` splits `s` at the leftmost occurrence of `mark`; `cut_eq`
says that the two parts and the mark give `s` back. `contains` asks only
whether there is an occurrence.
-/

namespace Automation.Text

/-- What stands before and after the leftmost occurrence of `mark`. -/
def cut (mark : List Char) : List Char → Option (List Char × List Char)
  | [] => if mark.isEmpty then some ([], []) else none
  | c :: rest =>
    if mark.isPrefixOf (c :: rest) then some ([], (c :: rest).drop mark.length)
    else (cut mark rest).map fun (before, after) => (c :: before, after)

/-- Whether `mark` occurs in `s`; the empty mark occurs everywhere. -/
def contains (mark s : List Char) : Bool :=
  (cut mark s).isSome

/-- Nothing of a text is lost by cutting it. -/
theorem cut_eq {mark s before after : List Char} (h : cut mark s = some (before, after)) :
    s = before ++ mark ++ after := by
  induction s generalizing before after with
  | nil =>
    cases mark with
    | nil => simp_all [cut]
    | cons m ms => simp [cut] at h
  | cons c rest ih =>
    unfold cut at h
    split at h
    · next hp =>
      obtain ⟨t, ht⟩ := List.isPrefixOf_iff_prefix.1 hp
      simp only [Option.some.injEq, Prod.mk.injEq] at h
      obtain ⟨rfl, rfl⟩ := h
      rw [← ht]
      simp
    · obtain ⟨⟨b, a⟩, hc, he⟩ := Option.map_eq_some_iff.1 h
      simp only [Prod.mk.injEq] at he
      obtain ⟨rfl, rfl⟩ := he
      simp [ih hc]

end Automation.Text
