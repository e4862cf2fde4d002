/-
Automation.Http.Host — what stands for a server in an address.

A server has a name or a number. A number of thirty-two bits is written in
up to four parts between full stops, of which the last one fills what the
others leave; parts are decimal, octal behind `0` or of base sixteen
behind `0x`. A number of a hundred and twenty-eight bits is written in
brackets, as eight pieces of base sixteen between colons; two colons stand
for pieces of zero, and the last two pieces may be written as four decimal
numbers.

`Host.ofText` reads the server of a web address, and `Host.ofPlainText`
that of any other.
-/
import Automation.Http.Domain
import Automation.Text.Numeral

namespace Automation.Http

open Automation.Text

/-- A server. -/
inductive Host where
  | name (text : String)
  /-- A number of thirty-two bits. -/
  | short (n : Nat)
  /-- Eight pieces of sixteen bits. -/
  | long (pieces : List Nat)
  deriving DecidableEq, Repr, Inhabited

/-- Why a text does not stand for a server. -/
inductive HostError where
  | empty
  | badName
  | badCharacter
  | badShort
  | badLong
  deriving DecidableEq, Repr

namespace Host

/-! ## Numbers of thirty-two bits -/

/-- The number written by digits of a base, none standing for zero. -/
def digitsOf? (base : Nat) (s : List Char) : Option Nat :=
  s.foldlM (fun n c => do
    let d ← Json.Reader.hexDigit? c
    guard (d < base)
    return n * base + d) 0

/-- The number that a part writes. -/
def part? (s : List Char) : Option Nat :=
  match s with
  | [] => none
  | '0' :: 'x' :: rest | '0' :: 'X' :: rest => digitsOf? 16 rest
  | '0' :: d :: rest => digitsOf? 8 (d :: rest)
  | s => digitsOf? 10 s

/-- The parts of a name; a full stop at the end does not count. -/
def parts (s : List Char) : List (List Char) :=
  let parts := splitAt '.' s
  if 1 < parts.length && parts.getLast? == some [] then parts.dropLast else parts

/-- Whether a name is meant as a number: its last part is one. -/
def isNumber (s : List Char) : Bool :=
  (parts s).getLast?.any fun part =>
    (!part.isEmpty && part.all Char.isDigit) || (part? part).isSome

/-- The number written by parts, the lightest first, when so many bits are
to be filled by the first one. -/
def short? (s : List Char) : Option Nat := do
  let numbers ← (parts s).mapM part?
  guard (numbers.length ≤ 4)
  let last ← numbers.getLast?
  let others := numbers.dropLast
  let rest := Nat.pow 256 (4 - others.length)
  guard (last < rest && others.all (· ≤ 255))
  return others.foldl (fun n part => n * 256 + part) 0 * rest + last

/-! ## Numbers of a hundred and twenty-eight bits -/

/-- A piece of base sixteen. -/
def piece? (s : List Char) : Option Nat :=
  if s.isEmpty || 4 < s.length then none else digitsOf? 16 s

/-- A decimal number of eight bits, without zeros in front. -/
def byte? (s : List Char) : Option Nat :=
  if s.length != 1 && s.head? == some '0' then none else (natural? s).filter (· ≤ 255)

/-- Two pieces written as four decimal numbers. -/
def twoPieces? (s : List Char) : Option (List Nat) := do
  let [a, b, c, d] ← (splitAt '.' s).mapM byte? | none
  return [a * 256 + b, c * 256 + d]

/-- Pieces between colons; the last ones may be decimal where the number
ends. -/
def pieces? (atEnd : Bool) : List (List Char) → Option (List Nat)
  | [] => some []
  | [s] => ((piece? s).map ([·])) <|> (if atEnd then twoPieces? s else none)
  | s :: rest => do
    let piece ← piece? s
    let pieces ← pieces? atEnd rest
    return piece :: pieces

/-- The pieces in a text; there are none in an empty one. -/
def piecesIn? (atEnd : Bool) (s : List Char) : Option (List Nat) :=
  if s.isEmpty then some [] else pieces? atEnd (splitAt ':' s)

/-- Eight pieces. -/
def long? (s : List Char) : Option (List Nat) :=
  match cut [':', ':'] s with
  | some (before, after) => do
    let before ← piecesIn? false before
    let after ← piecesIn? true after
    let missing := 8 - (before.length + after.length)
    guard (0 < missing)
    return before ++ List.replicate missing 0 ++ after
  | none => do
    let pieces ← pieces? true (splitAt ':' s)
    guard (pieces.length == 8)
    return pieces

/-- How many zeros stand in front. -/
def zeros (pieces : List Nat) : Nat :=
  (pieces.takeWhile (· == 0)).length

/-- The place and the length of the first among the longest rows of zeros,
when `place` pieces stand before. -/
def longestZeros (place : Nat) : List Nat → Nat × Nat
  | [] => (place, 0)
  | piece :: rest =>
    let here := zeros (piece :: rest)
    let (there, length) := longestZeros (place + 1) rest
    if length ≤ here then (place, here) else (there, length)

/-- A number of base sixteen. -/
def hexText (n : Nat) : String :=
  String.ofList (Nat.toDigits 16 n)

/-- Pieces with colons between them; the longest row of zeros is left out if
there are at least two. -/
def longText (pieces : List Nat) : String :=
  let colons (pieces : List Nat) : String := ":".intercalate (pieces.map hexText)
  let (place, length) := longestZeros 0 pieces
  if length < 2 then colons pieces
  else colons (pieces.take place) ++ "::" ++ colons (pieces.drop (place + length))

/-! ## Servers -/

/-- The server as a text. -/
def text : Host → String
  | .name text => text
  | .short n =>
    ".".intercalate ([16777216, 65536, 256, 1].map fun unit => toString (n / unit % 256))
  | .long pieces => "[" ++ longText pieces ++ "]"

/-- A text in brackets as a server. -/
def ofBrackets (s : List Char) : Except HostError Host :=
  match if s.getLast? == some ']' then long? ((s.drop 1).dropLast) else none with
  | some pieces => .ok (.long pieces)
  | none => .error .badLong

/-- The server of a web address. -/
def ofText (s : List Char) : Except HostError Host :=
  if s.head? == some '[' then ofBrackets s
  else
    match Domain.ofText? s with
    | none => .error .badName
    | some [] => .error .empty
    | some text =>
      if isNumber text then
        match short? text with
        | some n => .ok (.short n)
        | none => .error .badShort
      else .ok (.name (String.ofList text))

/-- Write the bytes of a text, as `%` and two digits where they are no
printed ASCII characters or stand for one of `marks`. -/
def percentEncode (marks : String) (s : List Char) : List Char :=
  let digit (n : Nat) : Char := if n < 10 then Char.ofNat (48 + n) else Char.ofNat (55 + n)
  (Utf8.write (String.ofList s)).flatMap fun b =>
    if b < 32 || 127 ≤ b || marks.contains (Char.ofNat b) then
      ['%', digit (b / 16), digit (b % 16)]
    else [Char.ofNat b]

/-- The server of any other address; it may be empty. -/
def ofPlainText (s : List Char) : Except HostError Host :=
  if s.head? == some '[' then ofBrackets s
  else if s.any fun c => c.toNat == 0 || "\t\n\r #/:<>?@[\\]^|".contains c then
    .error .badCharacter
  else .ok (.name (String.ofList (percentEncode "" s)))

end Host

end Automation.Http
