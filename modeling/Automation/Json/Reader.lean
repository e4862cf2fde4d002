/-
Automation.Json.Reader — reading JSON texts.

`Document.ofText` reads a whole text: one value with blanks around it
(space, tab, line feed, carriage return), and nothing behind. Strings
hold no control characters; their escapes are those of JSON, where a
character beyond U+FFFF is a pair of escapes. Numbers have no superfluous
leading zero and digits on both sides of a point. Containers may be
nested up to 127 deep.
-/
import Automation.Json.Outline

namespace Automation.Json

/-- A text that has been read. -/
structure Document where
  root : Outline
  /-- Only blanks follow the value. -/
  ended : Bool
  deriving Repr, Inhabited

namespace Reader

/-- How deep containers may be nested. -/
def deepest : Nat := 127

/-- The blanks of JSON. -/
def isBlank (c : Char) : Bool :=
  c == ' ' || c == '\t' || c == '\n' || c == '\r'

/-- Drop the blanks in front. -/
def skipBlanks (s : List Char) : List Char :=
  s.dropWhile isBlank

/-! ## Strings -/

/-- The value of a digit of base sixteen. -/
def hexDigit? (c : Char) : Option Nat :=
  if c.isDigit then some (c.toNat - '0'.toNat)
  else if 'a' ≤ c && c ≤ 'f' then some (c.toNat - 'a'.toNat + 10)
  else if 'A' ≤ c && c ≤ 'F' then some (c.toNat - 'A'.toNat + 10)
  else none

/-- The number written by four digits of base sixteen. -/
def hex4? (a b c d : Char) : Option Nat := do
  return (((← hexDigit? a) * 16 + (← hexDigit? b)) * 16 + (← hexDigit? c)) * 16 + (← hexDigit? d)

/-- The character of an escape with a letter. -/
def escape? : Char → Option Char
  | '"' => some '"'
  | '\\' => some '\\'
  | '/' => some '/'
  | 'b' => some (Char.ofNat 8)
  | 'f' => some (Char.ofNat 12)
  | 'n' => some '\n'
  | 'r' => some '\r'
  | 't' => some '\t'
  | _ => none

/-- The second half of a character beyond U+FFFF. -/
def isSecondHalf (n : Nat) : Bool :=
  0xDC00 ≤ n && n ≤ 0xDFFF

/-- The first half of a character beyond U+FFFF. -/
def isFirstHalf (n : Nat) : Bool :=
  0xD800 ≤ n && n ≤ 0xDBFF

/-- The characters of a string behind its opening mark, last first, whether
all of them are whole, and what follows the closing mark. `soFar` holds
the characters before. -/
def string? (soFar : List Char) (whole : Bool) :
    List Char → Option ((List Char × Bool) × List Char)
  | '"' :: rest => some ((soFar, whole), rest)
  | '\\' :: 'u' :: a :: b :: c :: d :: '\\' :: 'u' :: e :: f :: g :: h :: rest =>
    match hex4? a b c d, hex4? e f g h with
    | some m, some n =>
      if isFirstHalf m && isSecondHalf n then
        string? (Char.ofNat (0x10000 + (m - 0xD800) * 0x400 + (n - 0xDC00)) :: soFar) whole rest
      else
        string? (Char.ofNat m :: soFar) (whole && !isFirstHalf m && !isSecondHalf m)
          ('\\' :: 'u' :: e :: f :: g :: h :: rest)
    | _, _ => none
  | '\\' :: 'u' :: a :: b :: c :: d :: rest =>
    match hex4? a b c d with
    | some m =>
      string? (Char.ofNat m :: soFar) (whole && !isFirstHalf m && !isSecondHalf m) rest
    | none => none
  | '\\' :: c :: rest => (escape? c).bind fun e => string? (e :: soFar) whole rest
  | c :: rest => if c.toNat < 0x20 || c == '\\' then none else string? (c :: soFar) whole rest
  | [] => none

/-! ## Numbers -/

/-- The digits in front, and the rest. -/
def digits (s : List Char) : List Nat × List Char :=
  ((s.takeWhile Char.isDigit).map fun c => c.toNat - '0'.toNat, s.dropWhile Char.isDigit)

/-- The number written by a list of digits. -/
def ofDigits (ds : List Nat) : Nat :=
  ds.foldl (fun n d => n * 10 + d) 0

/-- The exponent behind the letter `e`. -/
def exponent? (s : List Char) : Option (Int × List Char) :=
  let (negative, s) := match s with
    | '+' :: rest => (false, rest)
    | '-' :: rest => (true, rest)
    | s => (false, s)
  let (ds, rest) := digits s
  if ds.isEmpty then none
  else some (if negative then -(ofDigits ds : Int) else ofDigits ds, rest)

/-- The written number in front, and the rest. -/
def number? (s : List Char) : Option (Number.Written × List Char) := do
  let (negative, s) := match s with
    | '-' :: rest => (true, rest)
    | s => (false, s)
  let (whole, s) := digits s
  guard (!whole.isEmpty && (whole.length == 1 || whole.head? != some 0))
  let (fraction, s) ← match s with
    | '.' :: rest =>
      let (ds, rest) := digits rest
      if ds.isEmpty then none else some (ds, rest)
    | s => some ([], s)
  let (exponent, s) ← match s with
    | 'e' :: rest | 'E' :: rest => (exponent? rest).map fun (e, rest) => (some e, rest)
    | s => some (none, s)
  return (⟨negative, whole, fraction, exponent⟩, s)

/-! ## Values -/

/-- The rest of a text behind a word. -/
def word? (word s : List Char) : Option (List Char) :=
  if word.isPrefixOf s then some (s.drop word.length) else none

/-- A part of a text, and what follows it; nothing follows a part in which
the text breaks off. -/
abbrev Part (α : Type) := α × Option (List Char)

/-- A scalar, and what follows it. -/
def scalar (s : List Char) : Part Outline :=
  let literal (word : List Char) (o : Outline) : Part Outline :=
    match word? word s with
    | some rest => (o, some rest)
    | none => (.broken, none)
  match s with
  | 'n' :: _ => literal ['n', 'u', 'l', 'l'] .null
  | 't' :: _ => literal ['t', 'r', 'u', 'e'] (.bool true)
  | 'f' :: _ => literal ['f', 'a', 'l', 's', 'e'] (.bool false)
  | '"' :: rest =>
    match string? [] true rest with
    | some ((reversed, whole), rest) =>
      let text := Outline.string (String.ofList reversed.reverse)
      (if whole then text else .unreadable text, some rest)
    | none => (.broken, none)
  | s =>
    match number? s with
    | some (written, rest) =>
      match Number.ofWritten? written with
      | some n => (.number n, some rest)
      | none => (.unreadable .null, some rest)
    | none => (.broken, none)

/-- The key in front, and what follows it; at what is no string the text
breaks off. -/
def key (s : List Char) : Part Outline :=
  match s with
  | '"' :: _ => scalar s
  | _ => (.broken, none)

/-- Wrap what is nested too deeply. -/
def nested (depth : Nat) (o : Outline) : Outline :=
  if depth < deepest then o else .unreadable o

mutual

/-- The value in front of a text, inside `depth` containers. Every step
takes one of `fuel`, of which the length of the text is enough. -/
def value (fuel depth : Nat) (s : List Char) : Part Outline :=
  match fuel with
  | 0 => (.broken, none)
  | fuel + 1 =>
    match skipBlanks s with
    | '[' :: rest =>
      match skipBlanks rest with
      | ']' :: rest => (nested depth (.array [] true), some rest)
      | rest =>
        let ((found, closed), rest) := items fuel (depth + 1) rest
        (nested depth (.array found closed), rest)
    | '{' :: rest =>
      match skipBlanks rest with
      | '}' :: rest => (nested depth (.object [] true), some rest)
      | rest =>
        let ((found, closed), rest) := fields fuel (depth + 1) rest
        (nested depth (.object found closed), rest)
    | s => scalar s

/-- The items up to the closing bracket. -/
def items (fuel depth : Nat) (s : List Char) : Part (List Outline × Bool) :=
  match fuel with
  | 0 => (([], false), none)
  | fuel + 1 =>
    match value fuel depth s with
    | (o, none) => (([o], false), none)
    | (o, some rest) =>
      match skipBlanks rest with
      | ']' :: rest => (([o], true), some rest)
      | ',' :: rest =>
        let ((found, closed), rest) := items fuel depth rest
        ((o :: found, closed), rest)
      | _ => (([o], false), none)

/-- The fields up to the closing brace. -/
def fields (fuel depth : Nat) (s : List Char) : Part (List (Outline × Outline) × Bool) :=
  match fuel with
  | 0 => (([], false), none)
  | fuel + 1 =>
    match key (skipBlanks s) with
    | (k, none) => (([(k, .broken)], false), none)
    | (k, some rest) =>
      match skipBlanks rest with
      | ':' :: rest =>
        match value fuel depth rest with
        | (o, none) => (([(k, o)], false), none)
        | (o, some rest) =>
          match skipBlanks rest with
          | '}' :: rest => (([(k, o)], true), some rest)
          | ',' :: rest =>
            let ((found, closed), rest) := fields fuel depth rest
            (((k, o) :: found, closed), rest)
          | _ => (([(k, o)], false), none)
      | _ => (([(k, .broken)], false), none)

end

end Reader

/-- Read a text. -/
def Document.ofText (text : String) : Document :=
  let s := text.toList
  let (root, rest) := Reader.value (2 * s.length + 2) 0 s
  ⟨root, rest.any fun rest => (Reader.skipBlanks rest).isEmpty⟩

/-- The value of a text that is one JSON value. -/
def Value.ofText? (text : String) : Option Value :=
  let document := Document.ofText text
  if document.ended then document.root.value? else none

end Automation.Json
