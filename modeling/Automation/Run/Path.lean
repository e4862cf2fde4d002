/-
Automation.Run.Path — looking up a dotted path in a context.

A path such as `variables.ticket.priority` begins at one of four roots
and goes down by the keys of objects and the indices of arrays. Another
root is an error; a step that leads nowhere gives `null`, and so does
every step after it. Blanks around a path do not count.
-/
import Automation.Run.Context
import Automation.Text.Blank
import Automation.Text.Numeral

namespace Automation

open Automation.Json (Value Fields)

/-- Where a path begins. -/
inductive Root where
  | vars | tasks | user | environment
  deriving DecidableEq, Repr

/-- The names of the roots. -/
def Root.names : List (String × Root) := [
  ("variables", .vars), ("tasks", .tasks), ("user", .user), ("environment", .environment)]

/-- The root of a name. -/
def Root.named? (name : String) : Option Root :=
  (Root.names.find? fun entry => entry.1 == name).map (·.2)

/-- A path whose first segment is no root. -/
structure UnknownRoot where
  root : String
  path : String
  deriving DecidableEq, Repr

/-- An unknown root in words. -/
def UnknownRoot.message (e : UnknownRoot) : String :=
  "Unknown root '" ++ e.root ++ "' in field path '" ++ e.path ++ "'; expected one of: " ++
    ", ".intercalate (Root.names.map (·.1))

namespace Path

/-- The parts between dots; there is always one. -/
def segments : List Char → List (List Char)
  | [] => [[]]
  | c :: rest =>
    if c == '.' then [] :: segments rest
    else
      match segments rest with
      | s :: more => (c :: s) :: more
      | [] => [[c]]

/-- One step down into a value. -/
def step (v : Value) (segment : List Char) : Value :=
  match v with
  | .object fields => (Fields.get? fields (String.ofList segment)).getD .null
  | .array items =>
    match Text.unsigned? Text.largest64 segment with
    | some i => items[i]?.getD .null
    | none => .null
  | _ => .null

end Path

namespace Context

/-- The value at a root. -/
def root (c : Context) : Root → Value
  | .vars => .object c.vars
  | .tasks => .array (c.tasks.map TaskReference.toJson)
  | .user =>
    match c.userId with
    | some id => .object [("id", .string id)]
    | none => .null
  | .environment => .string c.environment

/-- The value at a path without blanks around it. -/
def resolveTrimmed (c : Context) (path : List Char) : Except UnknownRoot Value :=
  let first := String.ofList ((Path.segments path).headD [])
  match Root.named? first with
  | some root => .ok ((Path.segments path).tail.foldl Path.step (c.root root))
  | none => .error ⟨first, String.ofList path⟩

/-- The value at a path. -/
def resolve (c : Context) (path : List Char) : Except UnknownRoot Value :=
  c.resolveTrimmed (Text.trim path)

end Context

end Automation
