/-
Automation.Run.Condition — conditions on a context.

A clause compares the value at a path with a wanted value, in which
placeholders are filled in first. A condition joins its clauses by `and`
or by `or`; all clauses are looked at, so an error in any of them is an
error of the condition.

Equality is loose: besides equal values, two numbers are equal when they
are equal as doubles. Numbers are also ordered as doubles.
-/
import Automation.Run.Template

namespace Automation

open Automation.Json (Value Number)

/-- How a clause compares. -/
inductive Operator where
  | equals | notEquals | contains | greaterThan | lessThan
  deriving DecidableEq, Repr, Inhabited

/-- The names of the operators. -/
def Operator.names : List (String × Operator) := [
  ("equals", .equals), ("not_equals", .notEquals), ("contains", .contains),
  ("greater_than", .greaterThan), ("less_than", .lessThan)]

/-- How clauses are joined. -/
inductive Logic where
  | and | or
  deriving DecidableEq, Repr, Inhabited

/-- The names that are read for the two ways of joining. -/
def Logic.names : List (String × Logic) := [
  ("AND", .and), ("and", .and), ("OR", .or), ("or", .or)]

/-- The name that is written. -/
def Logic.name : Logic → String
  | .and => "and"
  | .or => "or"

/-- A way of joining in a sentence. -/
def Logic.title : Logic → String
  | .and => "And"
  | .or => "Or"

/-- One comparison. -/
structure Clause where
  field : String
  operator : Operator
  value : Value
  deriving Repr, Inhabited

/-- Comparisons and how they are joined. -/
structure Condition where
  clauses : List Clause
  logic : Logic
  deriving Repr, Inhabited

open Decode in
/-- Read a comparison. -/
def Clause.decode : Decoder Clause :=
  Reader.decode "ConditionClause" <|
    Clause.mk <$> required "field" text
      <*> required "operator" (variant Operator.names)
      <*> optional "value" any .null

open Decode in
/-- Read a condition. -/
def Condition.decode : Decoder Condition :=
  Reader.decode "ConditionSpec" <|
    Condition.mk <$> optional "conditions" (list Clause.decode) []
      <*> optional "logic" (variant Logic.names) .and

/-- The JSON value of a comparison. -/
def Clause.toJson (c : Clause) : Value :=
  .ofFields [
    ("field", .string c.field),
    ("operator", variantJson Operator.names c.operator),
    ("value", c.value)]

/-- The JSON value of a condition. -/
def Condition.toJson (c : Condition) : Value :=
  .ofFields [
    ("conditions", .array (c.clauses.map Clause.toJson)),
    ("logic", .string c.logic.name)]

/-! ## Comparing -/

/-- Equality that does not tell `3` from `3.0`. -/
def looselyEqual (a b : Value) : Bool :=
  a.same b ||
    match a, b with
    | .number m, .number n => m.toFloat == n.toFloat
    | _, _ => false

/-- Compare an actual value with a wanted one. -/
def Operator.holds (op : Operator) (actual wanted : Value) : Bool :=
  match op with
  | .equals => looselyEqual actual wanted
  | .notEquals => !looselyEqual actual wanted
  | .contains =>
    match actual, wanted with
    | .string s, .string t => Text.contains t.toList s.toList
    | _, _ => false
  | .greaterThan =>
    match actual, wanted with
    | .number m, .number n => n.toFloat < m.toFloat
    | _, _ => false
  | .lessThan =>
    match actual, wanted with
    | .number m, .number n => m.toFloat < n.toFloat
    | _, _ => false

/-- Join the outcomes of clauses. -/
def Logic.join : Logic → List Bool → Bool
  | .and, outcomes => outcomes.all id
  | .or, outcomes => outcomes.any id

namespace Context

/-- The outcome of a clause. -/
def decide (c : Context) (clause : Clause) : Except UnknownRoot Bool := do
  let actual ← c.resolve clause.field.toList
  let wanted ← c.interpolate clause.value
  return clause.operator.holds actual wanted

/-- The outcomes of clauses, in order. -/
def decideAll (c : Context) : List Clause → Except UnknownRoot (List Bool)
  | [] => .ok []
  | clause :: rest => do
    let outcome ← c.decide clause
    let outcomes ← c.decideAll rest
    return outcome :: outcomes

/-- Whether a condition is met. -/
def satisfies (c : Context) (condition : Condition) : Except UnknownRoot Bool :=
  (c.decideAll condition.clauses).map condition.logic.join

end Context

end Automation
