/-
Automation.Text.Punycode — texts of any characters written in ASCII.

The ASCII characters of a text come first, and a hyphen after them. Then
the other characters are told from the least to the greatest, each by how
many places of the growing text are passed over until it is put in. These
numbers are written in base thirty-six with the lightest digit first; the
bounds for the last digit of a number are adapted to the numbers before.

`encode` writes a text, and `decode?` reads one.
-/

namespace Automation.Text.Punycode

/-! ## Digits -/

/-- The digit of base thirty-six: the letters, then the ciphers. -/
def digit (d : Nat) : Char :=
  if d < 26 then Char.ofNat ('a'.toNat + d) else Char.ofNat ('0'.toNat + (d - 26))

/-- The value of a digit. -/
def digit? (c : Char) : Option Nat :=
  if 'a' ≤ c && c ≤ 'z' then some (c.toNat - 'a'.toNat)
  else if 'A' ≤ c && c ≤ 'Z' then some (c.toNat - 'A'.toNat)
  else if c.isDigit then some (c.toNat - '0'.toNat + 26)
  else none

/-- A digit below this one is the last of its number. -/
def threshold (place bias : Nat) : Nat :=
  max 1 (min 26 (place - bias))

/-- Divide by 35 until at most 455 is left, and add 36 for every division. -/
def scale (n added : Nat) : Nat × Nat :=
  if 455 < n then scale (n / 35) (added + 36) else (n, added)
termination_by n
decreasing_by omega

/-- The bias after a number, when a text has so many characters. -/
def adapt (n length : Nat) (isFirst : Bool) : Nat :=
  let n := if isFirst then n / 700 else n / 2
  let (n, added) := scale (n + n / length) 0
  added + 36 * n / (n + 38)

/-- The place of the first digit of a number. -/
def firstPlace : Nat := 36

/-- The first bias. -/
def firstBias : Nat := 72

/-- The first character that is not in ASCII. -/
def firstCode : Nat := 128

/-- The digits of a number. -/
def number (place bias n : Nat) : List Char :=
  let t := threshold place bias
  if n < t then [digit n]
  else digit (t + (n - t) % (36 - t)) :: number (place + 36) bias ((n - t) / (36 - t))
termination_by n
decreasing_by
  have : (n - threshold place bias) / (36 - threshold place bias) ≤ n - threshold place bias :=
    Nat.div_le_self _ _
  have : 1 ≤ threshold place bias := by unfold threshold; omega
  omega

/-! ## Writing -/

/-- A text half written. -/
structure Writing where
  /-- The digits so far. -/
  digits : List Char := []
  /-- The places passed over since the last character was put in. -/
  passed : Nat := 0
  bias : Nat := firstBias
  /-- How many characters are told. -/
  told : Nat

/-- Go past one character of the text while `code` is put in. -/
def Writing.pass (ascii code : Nat) (w : Writing) (c : Char) : Writing :=
  if c.toNat < code then { w with passed := w.passed + 1 }
  else if c.toNat == code then
    { digits := w.digits ++ number firstPlace w.bias w.passed
      passed := 0
      bias := adapt w.passed (w.told + 1) (w.told == ascii)
      told := w.told + 1 }
  else w

/-- Put in the characters of the given codes, which ascend from `next` on. -/
def Writing.tell (text : List Char) (ascii : Nat) : List Nat → (next : Nat) → Writing → Writing
  | [], _, w => w
  | code :: more, next, w =>
    let w := { w with passed := w.passed + (code - next) * (w.told + 1) }
    let w := text.foldl (Writing.pass ascii code) w
    tell text ascii more (code + 1) { w with passed := w.passed + 1 }

/-- Write a text. -/
def encode (text : List Char) : List Char :=
  let ascii := text.filter fun c => c.toNat < firstCode
  let others := (text.filter fun c => firstCode ≤ c.toNat).map Char.toNat
  let codes := (others.mergeSort fun a b => a ≤ b).eraseReps
  let written := Writing.tell text ascii.length codes firstCode { told := ascii.length }
  ascii ++ (if ascii.isEmpty then [] else ['-']) ++ written.digits

/-! ## Reading -/

/-- A text half read. -/
structure Reading where
  text : List Char
  code : Nat := firstCode
  /-- The place reached in the text. -/
  place : Nat := 0
  /-- The place at the beginning of the number. -/
  start : Nat := 0
  weight : Nat := 1
  digitPlace : Nat := firstPlace
  bias : Nat := firstBias

/-- Read a digit. -/
def Reading.next (r : Reading) (c : Char) : Option Reading := do
  let d ← digit? c
  let place := r.place + d * r.weight
  let t := threshold r.digitPlace r.bias
  if t ≤ d then
    return { r with place, weight := r.weight * (36 - t), digitPlace := r.digitPlace + 36 }
  let length := r.text.length + 1
  let code := r.code + place / length
  guard code.isValidChar
  return {
    text := r.text.insertIdx (place % length) (Char.ofNat code)
    code
    place := place % length + 1
    start := place % length + 1
    bias := adapt (place - r.start) length (r.start == 0) }

/-- Read a text; nothing is read if it breaks off or tells no character. -/
def decode? (s : List Char) : Option (List Char) := do
  let reversed := s.reverse
  let digits := (reversed.takeWhile (· != '-')).reverse
  let ascii := ((reversed.dropWhile (· != '-')).drop 1).reverse
  let r ← digits.foldlM Reading.next { text := ascii }
  guard (r.digitPlace == firstPlace)
  return r.text

end Automation.Text.Punycode
