/-
Automation.Proofs.Run.LookupTheorems — looking up a path segment by segment.

A path that is made longer by a segment leads one step further down
(`resolve_append_dot`): to the member of an object, to the item of an array,
or else to `null`. `Path.Below` says where a step leads, without saying how
the segment is read; below `null` there is nothing. So the values at the four
roots and this step determine the value at every path (`resolve_by_steps`).
-/
import Automation.Proofs.Run.PathTheorems
import Automation.Proofs.Text.NumeralTheorems

namespace Automation

open Automation.Json (Value Fields)

/-! ## One step -/

namespace Path

/-- What lies one segment below a value. -/
inductive Below (segment : List Char) : Value → Value → Prop where
  | member {fields : Fields} {v : Value} :
    Fields.get? fields (String.ofList segment) = some v → Below segment (.object fields) v
  | item {items : List Value} {i : Nat} {v : Value} :
    Text.Writes segment i → i ≤ Text.largest64 → items[i]? = some v →
    Below segment (.array items) v

variable {segment : List Char}

theorem below_object_iff {fields : Fields} {v : Value} :
    Below segment (.object fields) v ↔ Fields.get? fields (String.ofList segment) = some v :=
  ⟨fun h => by cases h; assumption, .member⟩

theorem below_array_iff {items : List Value} {v : Value} :
    Below segment (.array items) v ↔
      ∃ i, Text.unsigned? Text.largest64 segment = some i ∧ items[i]? = some v := by
  constructor
  · rintro (_ | ⟨hwrites, hbound, hitem⟩)
    exact ⟨_, Text.unsigned?_eq_some_iff.mpr ⟨hwrites, hbound⟩, hitem⟩
  · rintro ⟨i, hindex, hitem⟩
    obtain ⟨hwrites, hbound⟩ := Text.unsigned?_eq_some_iff.mp hindex
    exact .item hwrites hbound hitem

/-- A step leads to what lies below, and if nothing does, to `null`. -/
theorem step_below (v : Value) (segment : List Char) :
    Below segment v (step v segment) ∨
      step v segment = .null ∧ ∀ u, ¬ Below segment v u := by
  cases v with
  | object fields =>
    simp only [below_object_iff, step]
    cases Fields.get? fields (String.ofList segment) <;> simp
  | array items =>
    simp only [below_array_iff, step]
    cases Text.unsigned? Text.largest64 segment with
    | none => simp
    | some i => cases hitem : items[i]? <;> simp [hitem]
  | null => exact .inr ⟨rfl, nofun⟩
  | bool _ => exact .inr ⟨rfl, nofun⟩
  | number _ => exact .inr ⟨rfl, nofun⟩
  | string _ => exact .inr ⟨rfl, nofun⟩

end Path

/-! ## Longer paths -/

namespace Context

/-- The name of a root is a path. -/
theorem resolve_root (c : Context) {name : String} {root : Root} (h : (name, root) ∈ Root.names) :
    c.resolve name.toList = .ok (c.root root) := by
  simp only [Root.names, List.mem_cons, List.not_mem_nil, or_false, Prod.mk.injEq] at h
  rcases h with ⟨rfl, rfl⟩ | ⟨rfl, rfl⟩ | ⟨rfl, rfl⟩ | ⟨rfl, rfl⟩ <;> rfl

/-- What follows a path leads on from where the path leads. -/
theorem resolve_append_dot {c : Context} {path : List Char} {v : Value}
    (htrim : Text.trim path = path) (h : c.resolve path = .ok v) (rest : List Char) :
    c.resolve (path ++ '.' :: rest) =
      .ok ((Path.segments (Text.trimEnd rest)).foldl Path.step v) := by
  obtain ⟨first, more, hpath⟩ := List.exists_cons_of_ne_nil (Path.segments_ne_nil path)
  have hlong : Text.trim (path ++ '.' :: rest) = path ++ '.' :: Text.trimEnd rest :=
    Text.trim_append_cons htrim (by decide)
  simp only [resolve, htrim, hlong, resolveTrimmed, Path.segments_append, hpath, List.cons_append,
    List.headD_cons, List.tail_cons, List.foldl_append] at h ⊢
  split at h
  · cases h
    rfl
  · cases h

/-- **Paths are looked up segment by segment.** A path leads nowhere, which is
an error, exactly if what stands before its first dot is the name of no root.
The name of a root leads to the value at that root. And if a path without
blanks around it leads to a value, then that path, a dot and one more segment
lead to what lies one segment below: to the member of an object, to the item
of an array, and to `null` if there is no such thing. Below `null` there is
nothing but `null`, however much follows. -/
theorem resolve_by_steps (c : Context) :
    (∀ path, (∃ e, c.resolve path = .error e) ↔
      String.ofList ((Text.trim path).takeWhile (· != '.')) ∉
        ["variables", "tasks", "user", "environment"]) ∧
    (∀ name root, (name, root) ∈ Root.names → c.resolve name.toList = .ok (c.root root)) ∧
    (∀ path v, Text.trim path = path → c.resolve path = .ok v →
      (∀ segment, Text.trim segment = segment → '.' ∉ segment →
        ∃ u, c.resolve (path ++ '.' :: segment) = .ok u ∧
          (Path.Below segment v u ∨ u = .null ∧ ∀ u', ¬ Path.Below segment v u')) ∧
      (v = .null → ∀ rest, c.resolve (path ++ '.' :: rest) = .ok .null)) := by
  refine ⟨fun path => ?_, fun name root => c.resolve_root, fun path v htrim h => ⟨?_, ?_⟩⟩
  · simp only [resolve_eq_error_iff, Path.unknownRoot?]
    split <;> simp_all
  · intro segment hsegment hdot
    have hend : Text.trimEnd segment = segment := by
      have hstart : Text.trimStart segment = segment :=
        Text.dropWhile_isBlank_eq_self (Text.isBlank_head_of_trim hsegment)
      rwa [Text.trim, hstart] at hsegment
    refine ⟨_, resolve_append_dot htrim h segment, ?_⟩
    rw [hend, Path.segments_of_not_mem hdot]
    exact Path.step_below v segment
  · rintro rfl rest
    rw [resolve_append_dot htrim h rest, Path.foldl_step_null]

/-- The variable `t` is a list of one number. -/
def listing : Context :=
  { (default : Context) with vars := [("t", .array [.ofNat 5])] }

/-- The first item of the list is there, and nothing is below the second. -/
theorem resolve_by_steps_items :
    (Text.trim "variables.t".toList = "variables.t".toList ∧
      listing.resolve "variables.t".toList = .ok (.array [.ofNat 5]) ∧
      Text.trim ['0'] = ['0'] ∧ '.' ∉ ['0']) ∧
    (Text.trim "variables.t.1".toList = "variables.t.1".toList ∧
      listing.resolve "variables.t.1".toList = .ok .null) ∧
    (∃ u, listing.resolve ("variables.t".toList ++ '.' :: ['0']) = .ok u ∧
      (Path.Below ['0'] (.array [.ofNat 5]) u ∨
        u = .null ∧ ∀ u', ¬ Path.Below ['0'] (.array [.ofNat 5]) u')) ∧
    ∀ rest, listing.resolve ("variables.t.1".toList ++ '.' :: rest) = .ok .null := by
  have htrim : Text.trim "variables.t".toList = "variables.t".toList := by decide
  have hlist : listing.resolve "variables.t".toList = .ok (.array [.ofNat 5]) := by rfl
  have htrim' : Text.trim "variables.t.1".toList = "variables.t.1".toList := by decide
  have hnull : listing.resolve "variables.t.1".toList = .ok .null := by rfl
  refine ⟨⟨htrim, hlist, by decide, by decide⟩, ⟨htrim', hnull⟩, ?_, ?_⟩
  · exact ((resolve_by_steps listing).2.2 _ _ htrim hlist).1 _ (by decide) (by decide)
  · exact ((resolve_by_steps listing).2.2 _ _ htrim' hnull).2 rfl

end Context

end Automation
