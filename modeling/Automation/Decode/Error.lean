/-
Automation.Decode.Error — why a JSON value is not of the wanted form.

`DecodeError` names the cause, and `DecodeError.message` is the one place
where it is put into words. `DecodeError.breaks` tells the errors in the
writing of a text from those in what is written.
-/
import Automation.Json.Outline
import Automation.Json.Render
import Automation.Time.Moment

namespace Automation.Decode

open Automation.Json

/-- A range of integers, under the name it has in messages. -/
structure IntegerRange where
  name : String
  least : Int
  most : Int

namespace IntegerRange

/-- Sixteen bits, not signed. -/
def u16 : IntegerRange := ⟨"u16", 0, 65535⟩

/-- Thirty-two bits, not signed. -/
def u32 : IntegerRange := ⟨"u32", 0, 4294967295⟩

/-- Sixty-four bits, not signed. -/
def u64 : IntegerRange := ⟨"u64", 0, 18446744073709551615⟩

/-- Sixty-four bits, not signed, for a count. -/
def usize : IntegerRange := ⟨"usize", 0, 18446744073709551615⟩

/-- Thirty-two bits, signed. -/
def i32 : IntegerRange := ⟨"i32", -2147483648, 2147483647⟩

/-- Sixty-four bits, signed. -/
def i64 : IntegerRange := ⟨"i64", -9223372036854775808, 9223372036854775807⟩

/-- Whether an integer lies in the range. -/
def holds (range : IntegerRange) (i : Int) : Bool :=
  range.least ≤ i && i ≤ range.most

end IntegerRange

/-- What stands where something else was wanted. -/
inductive Found where
  | null
  | bool (value : Bool)
  | number (value : Number)
  | string (value : String)
  | sequence
  | map

/-- What was wanted. -/
inductive Expected where
  | text
  | boolean
  | double
  | integer (range : IntegerRange)
  | sequence
  | map
  | record (name : String)
  | unit
  | moment

/-- Why a value is not of the wanted form. -/
inductive DecodeError where
  /-- The text breaks off, or cannot be read at this place. -/
  | broken
  | missing (field : String)
  | duplicate (field : String)
  | mismatch (found : Found) (expected : Expected)
  | outOfRange (found : Int) (range : IntegerRange)
  | unknownVariant (given : String) (known : List String)
  /-- Neither a string nor an object where the name of a variant was
  wanted. -/
  | noVariant (found : Found)
  /-- An object of other than one field where a variant was wanted; a
  reader of a text has met `first` by then. -/
  | manyVariants (first : Option DecodeError)
  /-- A list of too few fields for a record: the field at `index` is
  missing. -/
  | tooFew (index : Nat) (record : String) (size : Nat)
  /-- A list of too many fields for a record. -/
  | tooMany (length : Nat)
  | notMoment (cause : Time.Moment.ReadError)

/-- A value in words. -/
def Found.describe : Found → String
  | .null => "null"
  | .bool b => "boolean `" ++ (if b then "true" else "false") ++ "`"
  | .number (.integer i) => "integer `" ++ toString i ++ "`"
  | .number (.real x) => "floating point `" ++ (Number.real x).render ++ "`"
  | .string s => "string " ++ Text.quoted s
  | .sequence => "sequence"
  | .map => "map"

/-- A wish in words. -/
def Expected.describe : Expected → String
  | .text => "a string"
  | .boolean => "a boolean"
  | .double => "f64"
  | .integer range => range.name
  | .sequence => "a sequence"
  | .map => "a map"
  | .record name => "struct " ++ name
  | .unit => "unit"
  | .moment => "an RFC 3339 formatted date and time string"

namespace DecodeError

/-- Names in a sentence: `a or b`, or `one of a, b, c`. -/
def alternatives (names : List String) : String :=
  match names.map fun name => "`" ++ name ++ "`" with
  | [a] => a
  | [a, b] => a ++ " or " ++ b
  | quoted => "one of " ++ ", ".intercalate quoted

/-- The wording of a cause. -/
def message : DecodeError → String
  | .broken => "expected value"
  | .missing field => "missing field `" ++ field ++ "`"
  | .duplicate field => "duplicate field `" ++ field ++ "`"
  | .mismatch found expected =>
    "invalid type: " ++ found.describe ++ ", expected " ++ expected.describe
  | .outOfRange found range =>
    "invalid value: integer `" ++ toString found ++ "`, expected " ++ range.name
  | .unknownVariant given known =>
    "unknown variant `" ++ given ++ "`, expected " ++ alternatives known
  | .noVariant found => "invalid type: " ++ found.describe ++ ", expected string or map"
  | .manyVariants _ => "invalid value: map, expected map with a single key"
  | .tooFew index record size =>
    "invalid length " ++ toString index ++ ", expected struct " ++ record ++ " with " ++
      toString size ++ (if size == 1 then " element" else " elements")
  | .tooMany length =>
    "invalid length " ++ toString length ++ ", expected fewer elements in array"
  | .notMoment cause => cause.message

/-- Whether the writing of a text is at fault, not what it says. -/
def breaks : DecodeError → Bool
  | .broken => true
  | .noVariant _ => true
  | .tooMany _ => true
  | .manyVariants first =>
    match first with
    | some e => e.breaks
    | none => true
  | _ => false

end DecodeError

end Automation.Decode
