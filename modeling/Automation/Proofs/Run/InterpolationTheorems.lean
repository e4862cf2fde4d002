/-
Automation.Proofs.Run.InterpolationTheorems — what filling in does to a value.

`Value.Revised f v w` says that `w` is `v` with its strings replaced as `f`
allows, and nothing else: the same keys, the same lengths, the same numbers,
truth values and nulls. `Context.Fills` says what may stand for one string,
in terms of how its text reads and not of how it is searched. Filling in is
exactly this revision (`interpolate_eq_ok_iff`), and when it fails it is for
the first path, in the order of the texts, that begins at no root
(`failure?_interpolate`).
-/
import Automation.Proofs.Run.TemplateTheorems
import Automation.Proofs.Run.PathTheorems
import Mathlib.Data.List.Forall2

namespace Automation

open Automation.Json (Value Fields)

/-! ## The error of a result -/

/-- The error of a result, if it is one. -/
def failure? {ε α : Type} : Except ε α → Option ε
  | .ok _ => none
  | .error e => some e

section Failure

variable {ε α β γ : Type}

theorem failure?_eq_some_iff {x : Except ε α} {e : ε} : failure? x = some e ↔ x = .error e := by
  cases x <;> simp [failure?]

theorem failure?_map (x : Except ε α) (f : α → β) : failure? (x.map f) = failure? x := by
  cases x <;> rfl

/-- Of two results in a row the first error counts. -/
theorem failure?_both (x : Except ε α) (y : Except ε β) (f : α → β → γ) :
    failure? (do let a ← x; let b ← y; return f a b) = (failure? x).or (failure? y) := by
  cases x <;> cases y <;> rfl

/-- Two results in a row give a value when both do. -/
theorem both_eq_ok_iff {x : Except ε α} {y : Except ε β} {f : α → β → γ} {r : γ} :
    (do let a ← x; let b ← y; return f a b) = .ok r ↔
      ∃ a b, x = .ok a ∧ y = .ok b ∧ f a b = r := by
  cases x <;> cases y <;> simp [bind, Except.bind, pure, Except.pure]

theorem map_eq_ok_iff {x : Except ε α} {f : α → β} {r : β} :
    x.map f = .ok r ↔ ∃ a, x = .ok a ∧ f a = r := by
  cases x <;> simp [Except.map]

end Failure

/-! ## Values with other strings in them -/

namespace Json.Value

mutual

/-- The second value is the first with other values in place of its
strings. -/
inductive Revised (f : String → Value → Prop) : Value → Value → Prop where
  | null : Revised f .null .null
  | bool (b : Bool) : Revised f (.bool b) (.bool b)
  | number (n : Number) : Revised f (.number n) (.number n)
  | string {text : String} {v : Value} (h : f text v) : Revised f (.string text) v
  | array {items items' : List Value} (h : RevisedItems f items items') :
      Revised f (.array items) (.array items')
  | object {fields fields' : List (String × Value)} (h : RevisedFields f fields fields') :
      Revised f (.object fields) (.object fields')

/-- Item by item. -/
inductive RevisedItems (f : String → Value → Prop) : List Value → List Value → Prop where
  | nil : RevisedItems f [] []
  | cons {v v' : Value} {rest rest' : List Value} (first : Revised f v v')
      (behind : RevisedItems f rest rest') : RevisedItems f (v :: rest) (v' :: rest')

/-- Field by field, each under its own key. -/
inductive RevisedFields (f : String → Value → Prop) :
    List (String × Value) → List (String × Value) → Prop where
  | nil : RevisedFields f [] []
  | cons {key : String} {v v' : Value} {rest rest' : List (String × Value)}
      (first : Revised f v v') (behind : RevisedFields f rest rest') :
      RevisedFields f ((key, v) :: rest) ((key, v') :: rest')

end

mutual

/-- The strings in a value, in order; keys are not among them. -/
def texts : Value → List String
  | .string text => [text]
  | .array items => textsOfItems items
  | .object fields => textsOfFields fields
  | _ => []

/-- The strings in the items of an array. -/
def textsOfItems : List Value → List String
  | [] => []
  | v :: rest => texts v ++ textsOfItems rest

/-- The strings in the fields of an object. -/
def textsOfFields : List (String × Value) → List String
  | [] => []
  | (_, v) :: rest => texts v ++ textsOfFields rest

end

mutual

/-- A value stays as it is when each of its strings may. -/
theorem revised_self {f : String → Value → Prop} : ∀ {v : Value},
    (∀ text ∈ v.texts, f text (.string text)) → Revised f v v
  | .null, _ => .null
  | .bool b, _ => .bool b
  | .number n, _ => .number n
  | .string text, h => .string (h text (by simp [texts]))
  | .array _, h => .array (revisedItems_self h)
  | .object _, h => .object (revisedFields_self h)

theorem revisedItems_self {f : String → Value → Prop} : ∀ {items : List Value},
    (∀ text ∈ textsOfItems items, f text (.string text)) → RevisedItems f items items
  | [], _ => .nil
  | _ :: _, h =>
    .cons (revised_self fun text ht => h text (List.mem_append_left _ ht))
      (revisedItems_self fun text ht => h text (List.mem_append_right _ ht))

theorem revisedFields_self {f : String → Value → Prop} : ∀ {fields : List (String × Value)},
    (∀ text ∈ textsOfFields fields, f text (.string text)) → RevisedFields f fields fields
  | [], _ => .nil
  | (_, _) :: _, h =>
    .cons (revised_self fun text ht => h text (List.mem_append_left _ ht))
      (revisedFields_self fun text ht => h text (List.mem_append_right _ ht))

end

end Json.Value

/-! ## One text -/

namespace Template

/-- The path of a placeholder. -/
def Piece.path? : Piece → Option (List Char)
  | .literal _ => none
  | .placeholder path => some path

/-- The paths that a text asks for, in order. -/
def asks (s : List Char) : List (List Char) :=
  match whole? s with
  | some path => [path]
  | none => (pieces s).filterMap Piece.path?

theorem asks_of_whole {s path : List Char} (h : Whole s path) : asks s = [path] := by
  simp [asks, whole?_eq_some_iff.2 h]

theorem whole?_eq_none {s : List Char} (h : ∀ path, ¬ Whole s path) : whole? s = none :=
  Option.eq_none_iff_forall_not_mem.2 fun path hp =>
    h path (whole?_eq_some_iff.1 (Option.mem_def.1 hp))

theorem asks_of_reads {s : List Char} {ps : List Piece} (h : ∀ path, ¬ Whole s path)
    (hr : Reads s ps) : asks s = ps.filterMap Piece.path? := by
  simp [asks, whole?_eq_none h, reads_iff.1 hr]

end Template

namespace Context

open Template

/-- The text that a piece leaves, as a relation. -/
inductive Rendered (c : Context) : Piece → String → Prop where
  | literal (text : List Char) : Rendered c (.literal text) (String.ofList text)
  | placeholder {path : List Char} {v : Value} (h : c.resolve path = .ok v) :
      Rendered c (.placeholder path) v.inText

/-- What stands for a text: the value at the path of a text that is one
placeholder, otherwise the pieces of the text as they are rendered, one
after the other. -/
inductive Fills (c : Context) (text : String) : Value → Prop where
  | whole {path : List Char} {v : Value} (h : Whole text.toList path)
      (hv : c.resolve path = .ok v) : Fills c text v
  | pieced {ps : List Piece} {ts : List String} (h : ∀ path, ¬ Whole text.toList path)
      (hr : Reads text.toList ps) (ht : List.Forall₂ c.Rendered ps ts) :
      Fills c text (.string (String.join ts))

variable {c : Context}

theorem fill_eq_ok_iff {piece : Piece} {t : String} :
    c.fill piece = .ok t ↔ c.Rendered piece t := by
  cases piece with
  | literal s =>
    constructor
    · rintro ⟨⟩
      exact .literal s
    · rintro ⟨⟩
      rfl
  | placeholder path =>
    simp only [fill, map_eq_ok_iff]
    constructor
    · rintro ⟨v, hv, rfl⟩
      exact .placeholder hv
    · rintro ⟨⟩
      next v hv => exact ⟨v, hv, rfl⟩

theorem fillAll_cons (piece : Piece) (rest : List Piece) :
    c.fillAll (piece :: rest) =
      (do let t ← c.fill piece; let ts ← c.fillAll rest; return t ++ ts) := rfl

/-- Pieces are rendered one by one and joined. -/
theorem fillAll_eq_ok_iff {ps : List Piece} {t : String} :
    c.fillAll ps = .ok t ↔ ∃ ts, List.Forall₂ c.Rendered ps ts ∧ String.join ts = t := by
  induction ps generalizing t with
  | nil =>
    simp only [fillAll, Except.ok.injEq, List.forall₂_nil_left_iff, exists_eq_left,
      String.join_nil]
  | cons piece rest ih =>
    simp only [fillAll_cons, both_eq_ok_iff, fill_eq_ok_iff, ih, List.forall₂_cons_left_iff]
    constructor
    · rintro ⟨u, _, hu, ⟨ts, hts, rfl⟩, rfl⟩
      exact ⟨u :: ts, ⟨u, ts, hu, hts, rfl⟩, String.join_cons⟩
    · rintro ⟨_, ⟨u, ts, hu, hts, rfl⟩, rfl⟩
      exact ⟨u, _, hu, ⟨ts, hts, rfl⟩, String.join_cons.symm⟩

theorem failure?_resolve (path : List Char) :
    failure? (c.resolve path) = Path.unknownRoot? path :=
  Option.ext fun e => by
    simp only [failure?_eq_some_iff, resolve_eq_error_iff]

/-- Pieces fail at the first placeholder with an unknown root. -/
theorem failure?_fillAll (ps : List Piece) :
    failure? (c.fillAll ps) = (ps.filterMap Piece.path?).findSome? Path.unknownRoot? := by
  induction ps with
  | nil => rfl
  | cons piece rest ih =>
    rw [fillAll_cons, failure?_both, ih]
    cases piece with
    | literal s => rfl
    | placeholder path =>
      rw [fill, failure?_map, failure?_resolve,
        List.filterMap_cons_some (f := Piece.path?) (b := path) rfl, List.findSome?_cons]
      cases Path.unknownRoot? path <;> rfl

/-- One text is filled in as its placeholders say. -/
theorem interpolateText_eq_ok_iff {text : String} {v : Value} :
    c.interpolateText text = .ok v ↔ c.Fills text v := by
  unfold interpolateText
  cases hw : whole? text.toList with
  | some path =>
    have whole := whole?_eq_some_iff.1 hw
    constructor
    · exact .whole whole
    · rintro (⟨whole', hv⟩ | ⟨h, -, -⟩)
      · obtain rfl := Option.some.inj (hw.symm.trans (whole?_eq_some_iff.2 whole'))
        exact hv
      · exact absurd whole (h path)
  | none =>
    have hnot : ∀ path, ¬ Whole text.toList path := fun path h => by
      simp [whole?_eq_some_iff.2 h] at hw
    simp only [map_eq_ok_iff, fillAll_eq_ok_iff]
    constructor
    · rintro ⟨_, ⟨ts, hts, rfl⟩, rfl⟩
      exact .pieced hnot (reads_iff.2 rfl) hts
    · rintro (⟨whole, -⟩ | ⟨-, hr, ht⟩)
      · exact absurd whole (hnot _)
      · exact ⟨_, ⟨_, reads_iff.1 hr ▸ ht, rfl⟩, rfl⟩

/-- One text fails for the first of its paths with an unknown root. -/
theorem failure?_interpolateText (text : String) :
    failure? (c.interpolateText text) = (asks text.toList).findSome? Path.unknownRoot? := by
  unfold interpolateText asks
  cases whole? text.toList with
  | some path =>
    simp only [failure?_resolve, List.findSome?_cons]
    cases Path.unknownRoot? path <;> rfl
  | none => simp only [failure?_map, failure?_fillAll]

/-- A text without placeholders stands for itself. -/
theorem fills_of_plain {text : String} (h : Plain text.toList) :
    c.Fills text (.string text) := by
  refine interpolateText_eq_ok_iff.1 ?_
  have hnot : ∀ path, ¬ Whole text.toList path := fun path hw => by
    obtain ⟨before, after, hin⟩ := Text.trim_isInfix text.toList
    exact h before path after (by rw [← hin, hw.eq]; simp)
  simp [interpolateText, whole?_eq_none hnot, pieces_of_plain h, fillAll, fill, Except.map, bind,
    Except.bind, pure, Except.pure]

/-! ## Whole values -/

mutual

/-- Filling in replaces the strings of a value and nothing else. -/
theorem interpolate_eq_ok_iff : ∀ {v w : Value},
    c.interpolate v = .ok w ↔ v.Revised c.Fills w
  | .null, w | .bool _, w | .number _, w => by
    simp only [interpolate, Except.ok.injEq]
    constructor
    · rintro rfl
      constructor
    · rintro ⟨⟩
      rfl
  | .string text, w => by
    rw [interpolate, interpolateText_eq_ok_iff]
    constructor
    · exact .string
    · rintro ⟨⟩
      assumption
  | .array items, w => by
    simp only [interpolate, map_eq_ok_iff, interpolateItems_eq_ok_iff]
    constructor
    · rintro ⟨items', h, rfl⟩
      exact .array h
    · rintro ⟨⟩
      next h => exact ⟨_, h, rfl⟩
  | .object fields, w => by
    simp only [interpolate, map_eq_ok_iff, interpolateFields_eq_ok_iff]
    constructor
    · rintro ⟨fields', h, rfl⟩
      exact .object h
    · rintro ⟨⟩
      next h => exact ⟨_, h, rfl⟩

theorem interpolateItems_eq_ok_iff : ∀ {items items' : List Value},
    c.interpolateItems items = .ok items' ↔ Value.RevisedItems c.Fills items items'
  | [], items' => by
    simp only [interpolateItems, Except.ok.injEq]
    constructor
    · rintro rfl
      exact .nil
    · rintro ⟨⟩
      rfl
  | v :: rest, items' => by
    have hbehind : ∀ {rest'}, c.interpolateItems rest = .ok rest' ↔
        Value.RevisedItems c.Fills rest rest' := interpolateItems_eq_ok_iff
    rw [interpolateItems, both_eq_ok_iff]
    simp only [interpolate_eq_ok_iff (v := v), hbehind]
    constructor
    · rintro ⟨v', rest', first, behind, rfl⟩
      exact .cons first behind
    · rintro ⟨⟩
      next first behind => exact ⟨_, _, first, behind, rfl⟩

theorem interpolateFields_eq_ok_iff : ∀ {fields fields' : List (String × Value)},
    c.interpolateFields fields = .ok fields' ↔ Value.RevisedFields c.Fills fields fields'
  | [], fields' => by
    simp only [interpolateFields, Except.ok.injEq]
    constructor
    · rintro rfl
      exact .nil
    · rintro ⟨⟩
      rfl
  | (key, v) :: rest, fields' => by
    have hbehind : ∀ {rest'}, c.interpolateFields rest = .ok rest' ↔
        Value.RevisedFields c.Fills rest rest' := interpolateFields_eq_ok_iff
    rw [interpolateFields, both_eq_ok_iff]
    simp only [interpolate_eq_ok_iff (v := v), hbehind]
    constructor
    · rintro ⟨v', rest', first, behind, rfl⟩
      exact .cons first behind
    · rintro ⟨⟩
      next first behind => exact ⟨_, _, first, behind, rfl⟩

end

/-- The paths that a list of strings asks for, in order. -/
def asksOf (texts : List String) : List (List Char) :=
  texts.flatMap fun text => Template.asks text.toList

theorem findSome?_asksOf_append (ts us : List String) :
    (asksOf (ts ++ us)).findSome? Path.unknownRoot? =
      ((asksOf ts).findSome? Path.unknownRoot?).or ((asksOf us).findSome? Path.unknownRoot?) := by
  simp only [asksOf, List.flatMap_append, List.findSome?_append]

mutual

/-- Filling in fails for the first path of any string in the value that
has an unknown root. -/
theorem failure?_interpolate : ∀ v : Value,
    failure? (c.interpolate v) = (asksOf v.texts).findSome? Path.unknownRoot?
  | .null | .bool _ | .number _ => rfl
  | .string text => by
    rw [interpolate, failure?_interpolateText, Value.texts, asksOf, List.flatMap_singleton]
  | .array items => by
    rw [interpolate, failure?_map, failure?_interpolateItems, Value.texts]
  | .object fields => by
    rw [interpolate, failure?_map, failure?_interpolateFields, Value.texts]

theorem failure?_interpolateItems : ∀ items : List Value,
    failure? (c.interpolateItems items) =
      (asksOf (Value.textsOfItems items)).findSome? Path.unknownRoot?
  | [] => rfl
  | v :: rest => by
    rw [interpolateItems, failure?_both, failure?_interpolate v, failure?_interpolateItems rest,
      Value.textsOfItems, findSome?_asksOf_append]

theorem failure?_interpolateFields : ∀ fields : List (String × Value),
    failure? (c.interpolateFields fields) =
      (asksOf (Value.textsOfFields fields)).findSome? Path.unknownRoot?
  | [] => rfl
  | (key, v) :: rest => by
    rw [interpolateFields, failure?_both, failure?_interpolate v, failure?_interpolateFields rest,
      Value.textsOfFields, findSome?_asksOf_append]

end

/-- Filling in replaces the strings of a value as their texts read, and
nothing else. Every text reads in one way. It fails exactly for the first
path with an unknown root among those that the strings ask for, the one of
a text that is one placeholder or those of its pieces; and it leaves a
value alone when no string in it has a complete placeholder. -/
theorem interpolate_revises_or_reports (c : Context) (v : Value) :
    (∀ s, ∃! ps, Reads s ps) ∧
    (∀ w, c.interpolate v = .ok w ↔ v.Revised c.Fills w) ∧
    (∀ e, c.interpolate v = .error e ↔
      (asksOf v.texts).findSome? Path.unknownRoot? = some e) ∧
    (∀ s path, Whole s path → asks s = [path]) ∧
    (∀ s ps, (∀ path, ¬ Whole s path) → Reads s ps → asks s = ps.filterMap Piece.path?) ∧
    ((∀ text ∈ v.texts, Plain text.toList) → c.interpolate v = .ok v) := by
  refine ⟨fun s => ⟨pieces s, reads_iff.2 rfl, fun _ => reads_iff.1⟩,
    fun w => interpolate_eq_ok_iff, fun e => ?_, fun _ _ => asks_of_whole,
    fun _ _ => asks_of_reads, fun h => ?_⟩
  · rw [← failure?_eq_some_iff, failure?_interpolate]
  · exact interpolate_eq_ok_iff.2
      (Value.revised_self fun text ht => fills_of_plain (h text ht))

/-- Blanks around a placeholder, two placeholders side by side, and braces
in the wrong order. -/
theorem interpolate_revises_or_reports_examples :
    (Whole " \x7b\x7buser\x7d\x7d ".toList "user".toList ∧
      asks " \x7b\x7buser\x7d\x7d ".toList = ["user".toList]) ∧
    ((∀ path, ¬ Whole "\x7b\x7ba\x7d\x7d\x7b\x7bb\x7d\x7d".toList path) ∧
      Reads "\x7b\x7ba\x7d\x7d\x7b\x7bb\x7d\x7d".toList
        [.literal [], .placeholder ['a'], .literal [], .placeholder ['b'], .literal []] ∧
      asks "\x7b\x7ba\x7d\x7d\x7b\x7bb\x7d\x7d".toList = [['a'], ['b']]) ∧
    ((∀ text ∈ (Value.array [.string "\x7d\x7d \x7b\x7b", .null]).texts, Plain text.toList) ∧
      (default : Context).interpolate (.array [.string "\x7d\x7d \x7b\x7b", .null]) =
        .ok (.array [.string "\x7d\x7d \x7b\x7b", .null])) := by
  obtain ⟨-, -, -, hwhole, hreads, hplain⟩ := interpolate_revises_or_reports default
    (.array [.string "\x7d\x7d \x7b\x7b", .null])
  have whole : Whole " \x7b\x7buser\x7d\x7d ".toList "user".toList :=
    whole?_eq_some_iff.1 (by decide)
  have notWhole : ∀ path, ¬ Whole "\x7b\x7ba\x7d\x7d\x7b\x7bb\x7d\x7d".toList path := by
    intro path h
    have hsome := whole?_eq_some_iff.2 h
    rw [show whole? "\x7b\x7ba\x7d\x7d\x7b\x7bb\x7d\x7d".toList = none by decide] at hsome
    cases hsome
  have reads : Reads "\x7b\x7ba\x7d\x7d\x7b\x7bb\x7d\x7d".toList
      [.literal [], .placeholder ['a'], .literal [], .placeholder ['b'], .literal []] :=
    reads_iff.2 (by decide)
  have plain : ∀ text ∈ (Value.array [.string "\x7d\x7d \x7b\x7b", .null]).texts,
      Plain text.toList := by
    intro text ht
    obtain rfl := List.mem_singleton.1 ht
    exact first?_eq_none_iff.1 (by decide)
  exact ⟨⟨whole, hwhole _ _ whole⟩, ⟨notWhole, reads, hreads _ _ notWhole reads⟩, plain,
    hplain plain⟩

/-! ## The two ways to read one placeholder -/

/-- A placeholder with nothing in front of it. -/
theorem fillAll_placeholder (path tail : List Char) :
    c.fillAll [.literal [], .placeholder path, .literal tail] =
      (c.resolve path).map fun v => v.inText ++ String.ofList tail := by
  cases hv : c.resolve path <;>
    simp [fillAll, fill, hv, Except.map, bind, Except.bind, pure, Except.pure]

/-- A text that is one placeholder stands for the value at its path. Read
from left to right it is that placeholder and nothing else unless the path
ends in a closing brace, and then it renders as that value does; with such
a brace the placeholder read from left to right ends before it. -/
theorem interpolateText_of_whole {c : Context} {text : String} {path : List Char}
    (h : whole? text.toList = some path) :
    c.interpolateText text = c.resolve path ∧
    (pieces (Text.trim text.toList) = lone path ↔ ¬ ['}'] <:+ path) ∧
    (¬ ['}'] <:+ path →
      c.fillAll (pieces (Text.trim text.toList)) = (c.resolve path).map Value.inText) ∧
    (∀ q, path = q ++ ['}'] →
      c.fillAll (pieces (Text.trim text.toList)) =
        (c.resolve q).map fun v => v.inText ++ "\x7d") := by
  have whole := whole?_eq_some_iff.1 h
  obtain ⟨hopen, hclosed⟩ := pieces_of_whole whole
  refine ⟨by simp [interpolateText, h], ⟨fun hlone => ?_, hopen⟩, fun hend => ?_,
    fun q hq => ?_⟩
  · rintro ⟨q, rfl⟩
    simp [hclosed q rfl, lone] at hlone
  · rw [hopen hend, lone, fillAll_placeholder]
    simp
  · rw [hclosed q hq, fillAll_placeholder]

/-- A context with the variable `x`. -/
def withX (v : Value) : Context :=
  { (default : Context) with vars := [("x", v)] }

/-- Blanks inside the braces and outside. -/
theorem interpolateText_of_whole_blanks :
    whole? " \x7b\x7b variables.x \x7d\x7d".toList = some " variables.x ".toList ∧
    (withX (.ofNat 7)).interpolateText " \x7b\x7b variables.x \x7d\x7d" = .ok (.ofNat 7) ∧
    (withX (.ofNat 7)).fillAll (pieces (Text.trim " \x7b\x7b variables.x \x7d\x7d".toList)) =
      .ok "7" := by
  have h : whole? " \x7b\x7b variables.x \x7d\x7d".toList = some " variables.x ".toList := by
    decide
  obtain ⟨htext, -, hscan, -⟩ := interpolateText_of_whole (c := withX (.ofNat 7)) h
  have hv : (withX (.ofNat 7)).resolve " variables.x ".toList = .ok (.ofNat 7) := rfl
  refine ⟨h, htext.trans hv, ?_⟩
  rw [hscan (by decide), hv]
  rfl

/-- With three closing braces the value is looked up at a path that ends in
a brace, while the text reads as the placeholder before it. -/
theorem whole_placeholder_not_always_read :
    ¬ ∀ (c : Context) (text : String) (path : List Char) (v : Value),
      whole? text.toList = some path → c.resolve path = .ok v →
        c.fillAll (pieces (Text.trim text.toList)) = .ok v.inText := by
  intro h
  have hpieces : pieces (Text.trim "\x7b\x7bvariables.x\x7d\x7d\x7d".toList) =
      [.literal [], .placeholder "variables.x".toList, .literal ['}']] := by decide
  have hvalue : (withX (.ofNat 1)).resolve "variables.x".toList = .ok (.ofNat 1) := rfl
  have hread := h (withX (.ofNat 1)) "\x7b\x7bvariables.x\x7d\x7d\x7d"
    "variables.x\x7d".toList .null (by decide) rfl
  rw [hpieces, fillAll_placeholder, hvalue, Except.map, Except.ok.injEq,
    ← String.toList_inj] at hread
  simp [Value.inText] at hread

end Context

end Automation
