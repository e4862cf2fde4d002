/-
Automation.Json.Value — JSON values.

An object is a list of fields whose keys stand in ascending order, each
once; `Value.ofFields` and the operations on `Fields` keep it so
(`Fields.insert_sorted`, `Fields.erase_sorted`). `Value.same` is equality
of values, in which numbers are compared by `Number.same`.
-/
import Automation.Json.Number

namespace Automation.Json

/-- A JSON value. -/
inductive Value where
  | null
  | bool (value : Bool)
  | number (value : Number)
  | string (value : String)
  | array (items : List Value)
  | object (fields : List (String × Value))
  deriving Repr, Inhabited

/-- The fields of an object, by ascending key. -/
abbrev Fields := List (String × Value)

namespace Fields

/-- The value of a key. -/
def get? (fields : Fields) (key : String) : Option Value :=
  (fields.find? fun field => field.1 == key).map (·.2)

/-- Give a key a value, in place of the one it has. -/
def insert (key : String) (value : Value) : Fields → Fields
  | [] => [(key, value)]
  | (k, v) :: rest =>
    if key < k then (key, value) :: (k, v) :: rest
    else if key = k then (key, value) :: rest
    else (k, v) :: insert key value rest

/-- Take a key away. -/
def erase (key : String) (fields : Fields) : Fields :=
  fields.filter fun field => field.1 != key

/-- The fields of both, those of the second winning. -/
def merge (fields newer : Fields) : Fields :=
  newer.foldl (fun all (key, value) => insert key value all) fields

/-- Put fields in order; of two with one key the later one stays. -/
def ofList (fields : List (String × Value)) : Fields :=
  merge [] fields

/-- The keys stand in ascending order, each once. -/
def Sorted (fields : Fields) : Prop :=
  fields.Pairwise fun a b => a.1 < b.1

/-! ## Order -/

/-- Inserting brings in no other key. -/
theorem key_mem_insert {key : String} {value : Value} {fields : Fields} {f : String × Value}
    (h : f ∈ insert key value fields) : f.1 = key ∨ f ∈ fields := by
  induction fields with
  | nil => simp_all [insert]
  | cons g rest ih =>
    obtain ⟨k, v⟩ := g
    unfold insert at h
    split at h
    · simp only [List.mem_cons] at h ⊢
      rcases h with rfl | h
      · exact .inl rfl
      · exact .inr h
    · split at h
      · simp only [List.mem_cons] at h ⊢
        rcases h with rfl | h
        · exact .inl rfl
        · exact .inr (.inr h)
      · simp only [List.mem_cons] at h ⊢
        rcases h with rfl | h
        · exact .inr (.inl rfl)
        · exact (ih h).imp id .inr

/-- Inserting keeps the order. -/
theorem insert_sorted (key : String) (value : Value) {fields : Fields} (h : fields.Sorted) :
    (insert key value fields).Sorted := by
  induction fields with
  | nil => simp [insert, Sorted]
  | cons g rest ih =>
    obtain ⟨k, v⟩ := g
    obtain ⟨hk, hr⟩ := List.pairwise_cons.1 h
    unfold insert
    split
    · next hlt =>
      refine List.pairwise_cons.2 ⟨fun f hf => ?_, h⟩
      rcases List.mem_cons.1 hf with rfl | hf
      · exact hlt
      · exact String.lt_trans hlt (hk f hf)
    · next hnlt =>
      split
      · next heq => exact List.pairwise_cons.2 ⟨fun f hf => heq ▸ hk f hf, hr⟩
      · next hne =>
        refine List.pairwise_cons.2 ⟨fun f hf => ?_, ih hr⟩
        rcases key_mem_insert hf with rfl | hf
        · exact Std.lt_of_le_of_ne (String.not_lt.1 hnlt) (Ne.symm hne)
        · exact hk f hf

/-- Taking a key away keeps the order. -/
theorem erase_sorted (key : String) {fields : Fields} (h : fields.Sorted) :
    (erase key fields).Sorted :=
  List.Pairwise.filter _ h

/-- Fields in any order are put in order. -/
theorem ofList_sorted (fields : List (String × Value)) : (ofList fields).Sorted := by
  suffices h : ∀ (newer base : Fields), base.Sorted → (merge base newer).Sorted from
    h fields [] .nil
  intro newer
  induction newer with
  | nil => exact fun _ h => h
  | cons f rest ih => exact fun base h => ih _ (insert_sorted _ _ h)

end Fields

/-! ## Values -/

namespace Value

/-- The object with these fields, in any order. -/
def ofFields (fields : List (String × Value)) : Value :=
  .object (Fields.ofList fields)

/-- The value of an optional part. -/
def ofOption {α : Type} (f : α → Value) : Option α → Value
  | none => .null
  | some a => f a

/-- The value of an optional text. -/
def ofOptionalText : Option String → Value :=
  ofOption .string

/-- The value of a natural number. -/
def ofNat (n : Nat) : Value :=
  .number (.integer n)

/-- The value of an integer. -/
def ofInt (i : Int) : Value :=
  .number (.integer i)

/-- The value of a list of texts. -/
def ofTexts (texts : List String) : Value :=
  .array (texts.map .string)

/-- Whether this is the value `null`. -/
def isNull : Value → Bool
  | .null => true
  | _ => false

/-! ## Equality -/

mutual

/-- Equality of values. -/
def same : Value → Value → Bool
  | .null, .null => true
  | .bool a, .bool b => a == b
  | .number a, .number b => a.same b
  | .string a, .string b => a == b
  | .array as, .array bs => sameItems as bs
  | .object as, .object bs => sameFields as bs
  | _, _ => false

/-- Equality of the items of two arrays. -/
def sameItems : List Value → List Value → Bool
  | [], [] => true
  | a :: as, b :: bs => a.same b && sameItems as bs
  | _, _ => false

/-- Equality of the fields of two objects. -/
def sameFields : List (String × Value) → List (String × Value) → Bool
  | [], [] => true
  | (k, a) :: as, (l, b) :: bs => k == l && a.same b && sameFields as bs
  | _, _ => false

end

end Value

end Automation.Json
