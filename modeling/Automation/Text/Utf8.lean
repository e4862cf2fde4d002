/-
Automation.Text.Utf8 — reading bytes as UTF-8.

Bytes are read from left to right. Where they do not form a character, one
mark `none` stands for the longest run of bytes that could have begun
one, or for a single byte that begins none. `read?` accepts only bytes
without such marks, and `readLossy` puts U+FFFD in their place.
-/

namespace Automation.Text.Utf8

/-- A character of which some bytes are still to come. -/
structure Pending where
  /-- The number made of the bytes so far. -/
  value : Nat
  /-- The least and the greatest byte that may follow. -/
  least : Nat
  most : Nat
  /-- How many bytes are to come. -/
  more : Nat

/-- What a byte begins: a character of its own, or one of several bytes. -/
def first? (b : Nat) : Option (Char ⊕ Pending) :=
  if b < 0x80 then some (.inl (Char.ofNat b))
  else if 0xC2 ≤ b && b ≤ 0xDF then some (.inr ⟨b - 0xC0, 0x80, 0xBF, 1⟩)
  else if b == 0xE0 then some (.inr ⟨0, 0xA0, 0xBF, 2⟩)
  else if b == 0xED then some (.inr ⟨0xD, 0x80, 0x9F, 2⟩)
  else if 0xE1 ≤ b && b ≤ 0xEF then some (.inr ⟨b - 0xE0, 0x80, 0xBF, 2⟩)
  else if b == 0xF0 then some (.inr ⟨0, 0x90, 0xBF, 3⟩)
  else if b == 0xF4 then some (.inr ⟨4, 0x80, 0x8F, 3⟩)
  else if 0xF1 ≤ b && b ≤ 0xF3 then some (.inr ⟨b - 0xF0, 0x80, 0xBF, 3⟩)
  else none

/-- The characters of bytes, behind the bytes that are pending. -/
def characters : Option Pending → List Nat → List (Option Char)
  | none, [] => []
  | some _, [] => [none]
  | pending, b :: rest =>
    let start (_ : Unit) : List (Option Char) :=
      match first? b with
      | some (.inl c) => some c :: characters none rest
      | some (.inr p) => characters (some p) rest
      | none => none :: characters none rest
    match pending with
    | none => start ()
    | some p =>
      if p.least ≤ b && b ≤ p.most then
        let value := p.value * 64 + (b - 0x80)
        if p.more == 1 then some (Char.ofNat value) :: characters none rest
        else characters (some ⟨value, 0x80, 0xBF, p.more - 1⟩) rest
      else none :: start ()

/-- The text of bytes that are UTF-8 throughout. -/
def read? (bytes : List Nat) : Option String :=
  ((characters none bytes).mapM id).map String.ofList

/-- The text of bytes, with U+FFFD for what is not UTF-8. -/
def readLossy (bytes : List Nat) : String :=
  String.ofList ((characters none bytes).map (·.getD (Char.ofNat 0xFFFD)))

/-- The bytes of a text. -/
def write (s : String) : List Nat :=
  s.toUTF8.toList.map UInt8.toNat

end Automation.Text.Utf8
