/-
Automation.Decode.Record — reading records.

A record is given as an object of its fields, in any order and with
fields of other names among them, or as the list of its fields in the
order of declaration. A `Reader` is made of its fields with `<$>` and
`<*>`; `Reader.decode` then reads either form:

- of an object, the fields are read in the order of the text, a field
  given twice is refused, and only then is a field found missing, the
  first one in the order of declaration;
- of a list, the items are read one by one; a shorter list leaves the
  rest to the defaults.
-/
import Automation.Decode.Basic

namespace Automation.Decode

open Automation.Json

/-- What stands for a field that is not given. -/
inductive Absence (α : Type) where
  /-- The field must be given. -/
  | refuse
  /-- An object may leave the field out, a list may not. -/
  | skip (value : α)
  /-- The field may be left out. -/
  | fill (value : α)

/-- A field of a record. -/
structure Field (α : Type) where
  name : String
  aliases : List String
  decode : Decoder α
  absence : Absence α

/-- Whether a key means this field. -/
def Field.isNamed {α : Type} (field : Field α) (key : String) : Bool :=
  key == field.name || field.aliases.contains key

/-- A reader of some fields of a record. -/
structure Reader (α : Type) : Type 1 where
  /-- What has been given so far. -/
  Given : Type
  /-- Nothing has been given. -/
  start : Given
  /-- The number of fields. -/
  size : Nat
  /-- Take in a field of an object, if it is one of these. -/
  take : Given → String → Outline → Option (Except DecodeError Given)
  /-- The value, once the object has ended. -/
  finish : Given → Except DecodeError α
  /-- Read the fields from a list whose end may be missing; the number is
  the place of the first field in the record. -/
  ofList : (tooFew : Nat → DecodeError) → (place : Nat) → List Outline → (closed : Bool) →
    Except DecodeError (α × List Outline)

namespace Reader

/-- A reader of one field. -/
def ofField {α : Type} (field : Field α) : Reader α where
  Given := Option α
  start := none
  size := 1
  take given key o :=
    if field.isNamed key then
      match given with
      | some _ => some (.error (.duplicate field.name))
      | none => some ((field.decode o).map some)
    else none
  finish given :=
    match given, field.absence with
    | some a, _ => .ok a
    | none, .refuse => .error (.missing field.name)
    | none, .skip a => .ok a
    | none, .fill a => .ok a
  ofList tooFew place items closed :=
    match items with
    | o :: rest => (field.decode o).map (·, rest)
    | [] =>
      if closed then
        match field.absence with
        | .fill a => .ok (a, [])
        | _ => .error (tooFew place)
      else .error .broken

/-- A reader of no fields. -/
def ofValue {α : Type} (a : α) : Reader α where
  Given := Unit
  start := ()
  size := 0
  take _ _ _ := none
  finish _ := .ok a
  ofList _ _ items _ := .ok (a, items)

/-- The fields of both readers, those of the first in front. -/
def both {α β γ : Type} (combine : α → β → γ) (r : Reader α) (s : Reader β) : Reader γ where
  Given := r.Given × s.Given
  start := (r.start, s.start)
  size := r.size + s.size
  take given key o :=
    match r.take given.1 key o with
    | some taken => some (taken.map (·, given.2))
    | none => (s.take given.2 key o).map fun taken => taken.map (given.1, ·)
  finish given := do
    let a ← r.finish given.1
    let b ← s.finish given.2
    return combine a b
  ofList tooFew place items closed := do
    let (a, items) ← r.ofList tooFew place items closed
    let (b, items) ← s.ofList tooFew (place + r.size) items closed
    return (combine a b, items)

instance : Applicative Reader where
  pure := ofValue
  map f r := both (fun f a => f a) (ofValue f) r
  seq r s := both (fun f a => f a) r (s ())

/-- Take in the fields of an object in order. -/
def takeAll {α : Type} (r : Reader α) (given : r.Given) :
    List (Outline × Outline) → Except DecodeError r.Given
  | [] => .ok given
  | (k, o) :: rest =>
    (key k).bind fun name =>
      match r.take given name o with
      | some taken => taken.bind fun given => takeAll r given rest
      | none => if o.isWhole then takeAll r given rest else .error .broken

/-- Read a record of the given name. -/
def decode {α : Type} (name : String) (r : Reader α) : Decoder α
  | .object fields closed => do
    let given ← r.takeAll r.start fields
    if closed then r.finish given else throw .broken
  | .array items closed => do
    let (a, rest) ← r.ofList (fun index => .tooFew index name r.size) 0 items closed
    if rest.isEmpty then
      if closed then return a else throw .broken
    else throw (.tooMany items.length)
  | o => refuse (.record name) o

end Reader

/-- A field that must be given. -/
def required {α : Type} (name : String) (decode : Decoder α) : Reader α :=
  .ofField ⟨name, [], decode, .refuse⟩

/-- A field that must be given, under one of several names. -/
def requiredAs {α : Type} (name : String) (aliases : List String) (decode : Decoder α) : Reader α :=
  .ofField ⟨name, aliases, decode, .refuse⟩

/-- A field that has a value when it is left out. -/
def optional {α : Type} (name : String) (decode : Decoder α) (value : α) : Reader α :=
  .ofField ⟨name, [], decode, .fill value⟩

/-- A field that has a value when it is left out, under one of several
names. -/
def optionalAs {α : Type} (name : String) (aliases : List String) (decode : Decoder α)
    (value : α) : Reader α :=
  .ofField ⟨name, aliases, decode, .fill value⟩

/-- A field that is nothing when it is left out or `null`. -/
def perhaps {α : Type} (name : String) (decode : Decoder α) : Reader (Option α) :=
  .ofField ⟨name, [], nullable decode, .fill none⟩

/-- A field that is nothing when it is `null` or an object leaves it out. -/
def nullableField {α : Type} (name : String) (decode : Decoder α) : Reader (Option α) :=
  .ofField ⟨name, [], nullable decode, .skip none⟩

end Automation.Decode
