/-
Automation.Decode.Basic — reading scalars, lists, maps and variants.

A decoder takes the outline of a value and returns what it means or the
first fault in the order of the text. Integers are read as doubles where
a double is wanted, and never the other way round. The variants of an
enumeration are named by a string, or by an object whose one field has
that name and the value `null`.
-/
import Automation.Decode.Error

namespace Automation.Decode

open Automation.Json

/-- A reader of values of one form. -/
abbrev Decoder (α : Type) := Outline → Except DecodeError α

/-- What an outline is found to be; nothing can be said of a broken one. -/
def found? : Outline → Option Found
  | .null => some .null
  | .bool b => some (.bool b)
  | .number n => some (.number n)
  | .string s => some (.string s)
  | .array _ _ => some .sequence
  | .object _ _ => some .map
  | .unreadable _ => none
  | .broken => none

/-- Refuse what is not of the wanted form. -/
def refuse {α : Type} (expected : Expected) (o : Outline) : Except DecodeError α :=
  match found? o with
  | some found => .error (.mismatch found expected)
  | none => .error .broken

/-- Any value. -/
def any : Decoder Value := fun o =>
  match o.value? with
  | some v => .ok v
  | none => .error .broken

/-- A string. -/
def text : Decoder String
  | .string s => .ok s
  | o => refuse .text o

/-- The key of a field. -/
def key : Decoder String := fun o =>
  match o.text? with
  | some s => .ok s
  | none => .error .broken

/-- A boolean. -/
def boolean : Decoder Bool
  | .bool b => .ok b
  | o => refuse .boolean o

/-- A double. -/
def double : Decoder Float
  | .number n => .ok n.toFloat
  | o => refuse .double o

/-- An integer of a range. -/
def integer (range : IntegerRange) : Decoder Int
  | .number (.integer i) => if range.holds i then .ok i else .error (.outOfRange i range)
  | o => refuse (.integer range) o

/-- An integer of a range without negative numbers. -/
def natural (range : IntegerRange) : Decoder Nat := fun o =>
  (integer range o).map Int.toNat

/-- A calendar moment. -/
def moment : Decoder Time.Moment
  | .string s => (Time.Moment.read s).mapError .notMoment
  | o => refuse .moment o

/-- Nothing for `null`, else what the decoder reads. -/
def nullable {α : Type} (decode : Decoder α) : Decoder (Option α)
  | .null => .ok none
  | o => (decode o).map some

/-- All items of a list, in order. -/
def items {α : Type} (decode : Decoder α) : List Outline → Except DecodeError (List α)
  | [] => .ok []
  | o :: rest => do
    let a ← decode o
    let as ← items decode rest
    return a :: as

/-- A list. -/
def list {α : Type} (decode : Decoder α) : Decoder (List α)
  | .array found closed => do
    let as ← items decode found
    if closed then return as else throw .broken
  | o => refuse .sequence o

/-- The fields of an object with free keys, by ascending key; of repeated
keys the last one counts. -/
def fields : Decoder Fields
  | .object found closed =>
    match (Outline.object found closed).value? with
    | some (.object fields) => .ok fields
    | _ => .error .broken
  | o => refuse .map o

/-- Texts under free keys. -/
abbrev Texts := List (String × String)

/-- Give a key a text, in place of the one it has. -/
def Texts.insert (key text : String) : Texts → Texts
  | [] => [(key, text)]
  | (k, t) :: rest =>
    if key < k then (key, text) :: (k, t) :: rest
    else if key = k then (key, text) :: rest
    else (k, t) :: insert key text rest

/-- The JSON value of texts under keys. -/
def Texts.toJson (texts : Texts) : Value :=
  .object (texts.map fun (key, t) => (key, .string t))

/-- An object of strings, by ascending key. -/
def texts : Decoder Texts
  | .object found closed => do
    let all ← items (fun (k, o) => return (← key k, ← text o)) found
    if closed then return all.foldl (fun sorted (k, t) => Texts.insert k t sorted) []
    else throw .broken
  | o => refuse .map o
where
  /-- All fields, in order. -/
  items {α : Type} (decode : Outline × Outline → Except DecodeError α) :
      List (Outline × Outline) → Except DecodeError (List α)
    | [] => .ok []
    | field :: rest => do
      let a ← decode field
      let as ← items decode rest
      return a :: as

/-- The value `null`, as the content of a variant. -/
def unit : Decoder Unit
  | .null => .ok ()
  | o => refuse .unit o

/-- The variant of a name. -/
def variantNamed {α : Type} (known : List (String × α)) (name : String) : Except DecodeError α :=
  match known.find? fun variant => variant.1 == name with
  | some variant => .ok variant.2
  | none => .error (.unknownVariant name (known.map (·.1)))

/-- A variant of an enumeration, from the list of all names. -/
def variant {α : Type} (known : List (String × α)) : Decoder α
  | .string s => variantNamed known s
  | .object ((name, content) :: rest) closed =>
    let first : Except DecodeError α := do
      let a ← variantNamed known (← key name)
      unit content
      return a
    if rest.isEmpty && closed then first
    else
      match first with
      | .error e => .error (.manyVariants (some e))
      | .ok _ => .error (.manyVariants none)
  | .object [] _ => .error (.manyVariants none)
  | o =>
    match found? o with
    | some found => .error (.noVariant found)
    | none => .error .broken

end Automation.Decode
