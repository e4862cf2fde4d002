/-
Automation.Json.Outline — a JSON text as far as it can be read.

A reader that knows which value it wants meets the parts of a text in
order, and stops at the first part that is wrong for it: a value of
another sort, or the place where the text is no JSON any more. Which of
the two comes first is visible outside, so an `Outline` keeps both: it is
the tree of a text in the order of the text, repeated keys included, and
marks where the text breaks off. A key is an outline too, for a string may
be one that cannot be read; where something else stands for a key, the
text breaks off.

`Outline.ofValue` is the outline of a value, and `Outline.value?` the
value of an outline without breaks; of repeated keys the last one counts.
-/
import Automation.Json.Value

namespace Automation.Json

/-- What a JSON text shows, in the order of the text. -/
inductive Outline where
  | null
  | bool (value : Bool)
  | number (value : Number)
  | string (value : String)
  /-- Items, and whether the closing bracket was reached. -/
  | array (items : List Outline) (closed : Bool)
  /-- Keys with what stands under them, and whether the closing brace was
  reached. -/
  | object (fields : List (Outline × Outline)) (closed : Bool)
  /-- Correctly written and yet no value: a number beyond the doubles, a
  string with half a character, a container nested too deeply. It can be
  skipped; it cannot be read. -/
  | unreadable (inside : Outline)
  /-- The text breaks off here. -/
  | broken
  deriving Repr, Inhabited

namespace Outline

mutual

/-- The outline of a value. -/
def ofValue : Value → Outline
  | .null => .null
  | .bool b => .bool b
  | .number n => .number n
  | .string s => .string s
  | .array items => .array (ofItems items) true
  | .object fields => .object (ofFields fields) true

/-- The outlines of the items of an array. -/
def ofItems : List Value → List Outline
  | [] => []
  | v :: rest => ofValue v :: ofItems rest

/-- The outlines of the fields of an object. -/
def ofFields : List (String × Value) → List (Outline × Outline)
  | [] => []
  | (k, v) :: rest => (.string k, ofValue v) :: ofFields rest

end

/-- The text of a string. -/
def text? : Outline → Option String
  | .string s => some s
  | _ => none

mutual

/-- The value, if all of it can be read. -/
def value? : Outline → Option Value
  | .null => some .null
  | .bool b => some (.bool b)
  | .number n => some (.number n)
  | .string s => some (.string s)
  | .array items closed => if closed then (items? items).map .array else none
  | .object fields closed => if closed then (fields? fields).map (.object ∘ Fields.ofList) else none
  | .unreadable _ => none
  | .broken => none

/-- The values of all items. -/
def items? : List Outline → Option (List Value)
  | [] => some []
  | o :: rest => do
    let v ← o.value?
    let vs ← items? rest
    return v :: vs

/-- The values of all fields. -/
def fields? : List (Outline × Outline) → Option (List (String × Value))
  | [] => some []
  | (k, o) :: rest => do
    let key ← k.text?
    let v ← o.value?
    let vs ← fields? rest
    return (key, v) :: vs

end

mutual

/-- Whether the text goes on behind this part. -/
def isWhole : Outline → Bool
  | .array items closed => closed && areWholeItems items
  | .object fields closed => closed && areWholeFields fields
  | .unreadable inside => inside.isWhole
  | .broken => false
  | _ => true

/-- Whether the text goes on behind all items. -/
def areWholeItems : List Outline → Bool
  | [] => true
  | o :: rest => o.isWhole && areWholeItems rest

/-- Whether the text goes on behind all fields. -/
def areWholeFields : List (Outline × Outline) → Bool
  | [] => true
  | (k, o) :: rest => k.isWhole && o.isWhole && areWholeFields rest

end

end Outline

end Automation.Json
