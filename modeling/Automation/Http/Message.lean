/-
Automation.Http.Message — requests, responses and their content types.

`isJsonType` says whether the body of a request counts as JSON. It reads a
content type as a type, a subtype and parameters; the subtype may have a
suffix behind a plus sign. The type must be `application`, and either the
subtype in front of the suffix or the suffix itself must be `json`; upper
and lower case are not told apart.
-/
import Automation.Json.Value

namespace Automation.Http

open Automation.Json (Value)

/-- A request, as the server hands it to the application. -/
structure Request where
  method : String
  /-- A path and what is asked there. The library that reads requests off the wire
  refuses targets of more than 65534 bytes itself (414), so none of them gets here. -/
  target : String
  contentType : Option String
  /-- The text of the body, which is in UTF-8. -/
  body : String
  deriving DecidableEq, Repr, Inhabited

/-- The body of a response. -/
inductive Body where
  | empty
  | text (content : String)
  | json (content : Value)
  deriving Repr, Inhabited

/-- A response. -/
structure Response where
  status : Nat
  body : Body := .empty
  deriving Repr, Inhabited

/-- Whether the status tells of success. -/
def Response.isSuccess (r : Response) : Bool :=
  200 ≤ r.status && r.status < 300

/-! ## Content types -/

/-- Whether a character may stand in a name. -/
def isNameChar (c : Char) : Bool :=
  c.isAlphanum || "!#$%&'*+-.^_\x60|~".contains c

/-- The rest of a text behind a name that is not empty. -/
def skipName? (s : List Char) : Option (List Char) :=
  match s with
  | c :: rest => if isNameChar c then some (rest.dropWhile isNameChar) else none
  | [] => none

/-- The rest of a text behind a quoted value, whose first character may be
anything in ASCII that is no control character. -/
def skipQuoted? (s : List Char) : Option (List Char) :=
  let isInner (c : Char) : Bool := 31 < c.toNat && c.toNat < 127
  match s with
  | c :: rest =>
    if isInner c then
      match rest.dropWhile fun c => isInner c && c != '"' with
      | '"' :: rest => some (rest.dropWhile (· == ' '))
      | _ => none
    else none
  | [] => none

/-- Whether a text is a list of parameters, each one behind a semicolon. At
most `fuel` of them are looked at. -/
def areParameters : (fuel : Nat) → List Char → Bool
  | _, [] => true
  | 0, _ => false
  | fuel + 1, c :: rest =>
    if c != ';' then false
    else
      match rest.dropWhile (· == ' ') with
      | [] => true
      | s =>
        match skipName? s with
        | some ('=' :: '"' :: value) =>
          match skipQuoted? value with
          | some rest => areParameters fuel rest
          | none => false
        | some ('=' :: value) =>
          match skipName? value with
          | some rest => areParameters fuel rest
          | none => value.isEmpty
        | _ => false

/-- Whether a content type stands for JSON. -/
def isJsonType (contentType : String) : Bool :=
  let s := contentType.toList.map Char.toLower
  match s.span isNameChar with
  | (type, '/' :: rest) =>
    let (subtype, parameters) := rest.span isNameChar
    let parts := subtype.reverse.span (· != '+')
    let (main, suffix) :=
      match parts with
      | (suffix, '+' :: main) =>
        if main.isEmpty then (subtype, []) else (main.reverse, suffix.reverse)
      | _ => (subtype, [])
    type == "application".toList &&
      !subtype.isEmpty && areParameters parameters.length parameters &&
      (main == "json".toList || suffix == "json".toList)
  | _ => false

end Automation.Http
