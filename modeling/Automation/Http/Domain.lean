/-
Automation.Http.Domain — names of servers in one form.

A name may be written with percent signs, in capital letters and in
characters that only stand for others. `Domain.ofText?` brings it into the
form in which it is looked up: small letters, and in ASCII, where a label
with other characters is written in Punycode behind `xn--`.

Capital letters are known of the Latin, Greek, Cyrillic and Armenian
blocks, and stand-ins of the digits, the ASCII letters and the full stop.
-/
import Automation.Http.Address
import Automation.Text.Punycode

namespace Automation.Http

open Automation.Text

namespace Domain

/-- Characters in a row, or every second one, that stand for others. -/
structure Folding where
  first : Nat
  last : Nat
  /-- The first of the others. -/
  target : Nat
  step : Nat := 1

/-- The characters that stand for others. -/
def foldings : List Folding := [
  ⟨0x41, 0x5A, 0x61, 1⟩, ⟨0xB2, 0xB3, 0x32, 1⟩, ⟨0xB9, 0xB9, 0x31, 1⟩,
  ⟨0xC0, 0xD6, 0xE0, 1⟩, ⟨0xD8, 0xDE, 0xF8, 1⟩,
  ⟨0x100, 0x12E, 0x101, 2⟩, ⟨0x134, 0x136, 0x135, 2⟩, ⟨0x139, 0x13D, 0x13A, 2⟩,
  ⟨0x141, 0x147, 0x142, 2⟩, ⟨0x14A, 0x176, 0x14B, 2⟩, ⟨0x178, 0x178, 0xFF, 1⟩,
  ⟨0x179, 0x17D, 0x17A, 2⟩, ⟨0x17F, 0x17F, 0x73, 1⟩,
  ⟨0x386, 0x386, 0x3AC, 1⟩, ⟨0x388, 0x38A, 0x3AD, 1⟩, ⟨0x38C, 0x38C, 0x3CC, 1⟩,
  ⟨0x38E, 0x38F, 0x3CD, 1⟩, ⟨0x391, 0x3A1, 0x3B1, 1⟩, ⟨0x3A3, 0x3AB, 0x3C3, 1⟩,
  ⟨0x400, 0x40F, 0x450, 1⟩, ⟨0x410, 0x42F, 0x430, 1⟩, ⟨0x460, 0x480, 0x461, 2⟩,
  ⟨0x531, 0x556, 0x561, 1⟩, ⟨0x1E00, 0x1E94, 0x1E01, 2⟩, ⟨0x1EA0, 0x1EFE, 0x1EA1, 2⟩,
  ⟨0x2070, 0x2070, 0x30, 1⟩, ⟨0x2074, 0x2079, 0x34, 1⟩, ⟨0x2080, 0x2089, 0x30, 1⟩,
  ⟨0x2460, 0x2468, 0x31, 1⟩, ⟨0x24B6, 0x24CF, 0x61, 1⟩, ⟨0x24D0, 0x24E9, 0x61, 1⟩,
  ⟨0x24EA, 0x24EA, 0x30, 1⟩, ⟨0x3002, 0x3002, 0x2E, 1⟩, ⟨0xFF01, 0xFF20, 0x21, 1⟩,
  ⟨0xFF21, 0xFF3A, 0x61, 1⟩, ⟨0xFF3B, 0xFF5E, 0x5B, 1⟩, ⟨0xFF61, 0xFF61, 0x2E, 1⟩,
  ⟨0x1D7CE, 0x1D7D7, 0x30, 1⟩, ⟨0x1D7D8, 0x1D7E1, 0x30, 1⟩, ⟨0x1D7E2, 0x1D7EB, 0x30, 1⟩,
  ⟨0x1D7EC, 0x1D7F5, 0x30, 1⟩, ⟨0x1D7F6, 0x1D7FF, 0x30, 1⟩]

/-- Whether a number lies in one of some ranges. -/
def lies (n : Nat) (ranges : List (Nat × Nat)) : Bool :=
  ranges.any fun (first, last) => first ≤ n && n ≤ last

/-- The characters that count for nothing. -/
def ignored : List (Nat × Nat) := [
  (0xAD, 0xAD), (0x34F, 0x34F), (0x180B, 0x180D), (0x180F, 0x180F), (0x200B, 0x200B),
  (0x2060, 0x2060), (0x2064, 0x2064), (0xFE00, 0xFE0F), (0xFEFF, 0xFEFF), (0xE0100, 0xE01EF)]

/-- The characters outside ASCII that no name may have: controls, marks of
joining and of the direction of writing, spaces, those of private use, and
those that are none. -/
def refused : List (Nat × Nat) := [
  (0x80, 0xA0), (0x1680, 0x1680), (0x2000, 0x200A), (0x200C, 0x200F), (0x2028, 0x202F),
  (0x205F, 0x205F), (0x2061, 0x2063), (0x2065, 0x206F), (0x3000, 0x3000), (0xE000, 0xF8FF),
  (0xFDD0, 0xFDEF), (0xFFF9, 0xFFFF), (0xE0000, 0xE00FF), (0xE01F0, 0x10FFFF)]

/-- The characters that a character stands for. -/
def fold (c : Char) : List Char :=
  let n := c.toNat
  if lies n ignored then []
  else
    match foldings.find? fun f => f.first ≤ n && n ≤ f.last && (n - f.first) % f.step == 0 with
    | some f => [Char.ofNat (f.target + (n - f.first))]
    | none => [c]

/-- Whether a character may stand in a name. -/
def isAllowed (c : Char) : Bool :=
  let n := c.toNat
  if n < 128 then 32 < n && n < 127 && !("%#/:<>?@[\\]^|".contains c)
  else !lies n refused

/-- Whether a character is one of ASCII. -/
def isAscii (c : Char) : Bool :=
  c.toNat < 128

/-- What a label in ASCII begins with that stands for one that is not. -/
def mark : List Char :=
  "xn--".toList

/-- Whether a label that stands for another one does so rightly. -/
def standsRightly (label : List Char) : Bool :=
  match Punycode.decode? label with
  | some text => !text.all isAscii && text.all fun c => isAllowed c && fold c == [c]
  | none => false

/-- A label in ASCII. -/
def label? (s : List Char) : Option (List Char) :=
  if !s.all isAllowed then none
  else if !s.all isAscii then some (mark ++ Punycode.encode s)
  else if mark.isPrefixOf s && !standsRightly (s.drop mark.length) then none
  else some s

/-- The name that a text stands for, if it is one; it may be empty. -/
def ofText? (s : List Char) : Option (List Char) := do
  let text ← Utf8.read? (percentDecode (Utf8.write (String.ofList s)))
  let labels ← (splitAt '.' (text.toList.flatMap fold)).mapM label?
  return ['.'].intercalate labels

end Domain

end Automation.Http
