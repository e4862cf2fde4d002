/-
Automation.Http.Address — the target of a request.

A target is a path and perhaps a query; a scheme and the name of a server
may come before them. The path is cut at its slashes as it stands; what a
segment names is found by replacing `%` and two digits of base sixteen by
the byte they write. A query is a list of fields in the form of web forms,
where also a plus sign stands for a space.
-/
import Automation.Json.Reader
import Automation.Text.Find
import Automation.Text.Utf8

namespace Automation.Http

open Automation.Text

/-- The target of a request. -/
structure Address where
  /-- The segments between the slashes, as they stand. -/
  segments : List String
  /-- The text behind the question mark. -/
  query : String
  deriving DecidableEq, Repr, Inhabited

/-- The parts of a text between occurrences of a character. -/
def splitAt (mark : Char) : List Char → List (List Char)
  | [] => [[]]
  | c :: rest =>
    if c == mark then [] :: splitAt mark rest
    else
      match splitAt mark rest with
      | part :: more => (c :: part) :: more
      | [] => [[c]]

/-- The parts of a text before and after the first occurrence of a
character, the second one empty if there is none. -/
def cutAt (mark : Char) (s : List Char) : List Char × List Char :=
  (cut [mark] s).getD (s, [])

/-- A target without the scheme and the server; the name of a server alone
asks for nothing. -/
def dropServer (target : List Char) : List Char :=
  if target.head? == some '/' then target
  else
    let (_, rest) := (cut "://".toList target).getD ([], [])
    rest.dropWhile fun c => !("/?#".contains c)

/-- Read a target; a fragment is left out. -/
def Address.ofText (target : String) : Address :=
  let (target, _) := cutAt '#' (dropServer target.toList)
  let (path, query) := cutAt '?' target
  { segments := ((splitAt '/' path).drop 1).map String.ofList
    query := String.ofList query }

/-- Replace `%` and two digits of base sixteen by the byte they write. -/
def percentDecode : List Nat → List Nat
  | b :: c :: d :: rest =>
    let digit? (n : Nat) := Json.Reader.hexDigit? (Char.ofNat n)
    match b == '%'.toNat, digit? c, digit? d with
    | true, some m, some n => (m * 16 + n) :: percentDecode rest
    | _, _, _ => b :: percentDecode (c :: d :: rest)
  | bytes => bytes

/-- What a segment names, if that is a text. -/
def segmentName? (segment : String) : Option String :=
  Utf8.read? (percentDecode (Utf8.write segment))

/-- What a part of a query stands for. -/
def formText (part : List Char) : String :=
  let spaced := part.map fun c => if c == '+' then ' ' else c
  Utf8.readLossy (percentDecode (Utf8.write (String.ofList spaced)))

/-- The fields of a query, in order. -/
def Address.queryFields (a : Address) : List (String × String) :=
  ((splitAt '&' a.query.toList).filter (!·.isEmpty)).map fun field =>
    let (key, value) := cutAt '=' field
    (formText key, formText value)

end Automation.Http
