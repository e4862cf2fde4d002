/-
Automation.Json.Render — the compact text of a JSON value.

No blanks stand between the tokens. In a string the quotation mark, the
backslash and the control characters are escaped, those with a letter by
it and the others by four digits in base sixteen; all other characters
stand for themselves.
-/
import Automation.Json.Value
import Automation.Text.Quoted

namespace Automation.Json

/-- One character inside a JSON string. -/
def escapeChar (c : Char) : String :=
  if c == '"' then "\\\""
  else if c == '\\' then "\\\\"
  else if c.toNat == 8 then "\\b"
  else if c == '\t' then "\\t"
  else if c == '\n' then "\\n"
  else if c.toNat == 12 then "\\f"
  else if c == '\r' then "\\r"
  else if c.toNat < 0x10 then "\\u000" ++ Text.hex c.toNat
  else if c.toNat < 0x20 then "\\u00" ++ Text.hex c.toNat
  else c.toString

/-- A text as a JSON string. -/
def renderText (s : String) : String :=
  "\"" ++ String.join (s.toList.map escapeChar) ++ "\""

namespace Value

mutual

/-- The compact text of a value. -/
def render : Value → String
  | .null => "null"
  | .bool b => if b then "true" else "false"
  | .number n => n.render
  | .string s => renderText s
  | .array items => "[" ++ renderItems items ++ "]"
  | .object fields => "\x7b" ++ renderFields fields ++ "\x7d"

/-- The items of an array, with commas between them. -/
def renderItems : List Value → String
  | [] => ""
  | [v] => v.render
  | v :: w :: rest => v.render ++ "," ++ renderItems (w :: rest)

/-- The fields of an object, with commas between them. -/
def renderFields : List (String × Value) → String
  | [] => ""
  | [(k, v)] => renderText k ++ ":" ++ v.render
  | (k, v) :: w :: rest => renderText k ++ ":" ++ v.render ++ "," ++ renderFields (w :: rest)

end

/-- The text of a value inside other text: a string stands for itself,
`null` leaves nothing, and anything else is written as JSON. -/
def inText : Value → String
  | .string s => s
  | .null => ""
  | v => v.render

end Value

end Automation.Json
