/-
Automation.Run.Template — placeholders in texts.

A placeholder is a path between double braces. A text that is one
placeholder and nothing else but blanks stands for the value at the path,
of whatever type; in any other text each placeholder is replaced by the
text of its value. Placeholders are found from left to right: the
leftmost opening braces and the nearest closing braces after them. What
has been put in is not searched again.

`Template.pieces` splits a text, and `Context.interpolate` fills in the
values.
-/
import Automation.Run.Path
import Automation.Text.Find
import Automation.Json.Render

namespace Automation

open Automation.Json (Value)

namespace Template

/-- The opening mark of a placeholder. -/
def opening : List Char := ['{', '{']

/-- The closing mark of a placeholder. -/
def closing : List Char := ['}', '}']

/-- Literal text, or the path of a placeholder. -/
inductive Piece where
  | literal (text : List Char)
  | placeholder (path : List Char)
  deriving DecidableEq, Repr

/-- The text up to the first placeholder, its path, and the text behind. -/
def first? (s : List Char) : Option (List Char × List Char × List Char) := do
  let (before, rest) ← Text.cut opening s
  let (path, after) ← Text.cut closing rest
  return (before, path, after)

/-- The pieces of a text. Every placeholder is longer than nothing, so
`fuel` need only be the length of the text. -/
def piecesWithin : Nat → List Char → List Piece
  | 0, s => [.literal s]
  | fuel + 1, s =>
    match first? s with
    | some (before, path, after) =>
      .literal before :: .placeholder path :: piecesWithin fuel after
    | none => [.literal s]

/-- The pieces of a text. -/
def pieces (s : List Char) : List Piece :=
  piecesWithin s.length s

/-- The path of a text that is one placeholder, blanks around it aside. -/
def whole? (s : List Char) : Option (List Char) :=
  let t := Text.trim s
  if opening.isPrefixOf t && closing.isSuffixOf (t.drop 2) then
    let inner := (t.drop 2).take (t.length - 4)
    if Text.contains opening inner || Text.contains closing inner then none else some inner
  else none

end Template

namespace Context

open Template

/-- The text that a piece leaves. -/
def fill (c : Context) : Piece → Except UnknownRoot String
  | .literal s => .ok (String.ofList s)
  | .placeholder path => (c.resolve path).map Value.inText

/-- The texts that pieces leave, joined. -/
def fillAll (c : Context) : List Piece → Except UnknownRoot String
  | [] => .ok ""
  | piece :: rest => do
    let t ← c.fill piece
    let ts ← c.fillAll rest
    return t ++ ts

/-- A text with its placeholders filled in. -/
def interpolateText (c : Context) (text : String) : Except UnknownRoot Value :=
  match whole? text.toList with
  | some path => c.resolve path
  | none => (c.fillAll (pieces text.toList)).map .string

mutual

/-- A value with the placeholders in all its texts filled in. Keys are left
as they are. -/
def interpolate (c : Context) : Value → Except UnknownRoot Value
  | .string text => c.interpolateText text
  | .array items => (c.interpolateItems items).map .array
  | .object fields => (c.interpolateFields fields).map .object
  | v => .ok v

/-- The items of an array, in order. -/
def interpolateItems (c : Context) : List Value → Except UnknownRoot (List Value)
  | [] => .ok []
  | v :: rest => do
    let v ← c.interpolate v
    let rest ← c.interpolateItems rest
    return v :: rest

/-- The fields of an object, in order. -/
def interpolateFields (c : Context) :
    List (String × Value) → Except UnknownRoot (List (String × Value))
  | [] => .ok []
  | (key, v) :: rest => do
    let v ← c.interpolate v
    let rest ← c.interpolateFields rest
    return (key, v) :: rest

end

end Context

end Automation
