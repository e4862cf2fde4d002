/-
Automation.Services.Request — calls that leave the house.

A webhook node asks for a response from the web, and a script node for the
outcome of a script in a sandbox. Only the requests and what may come back
are described here; who answers them is left open.
-/
import Automation.Workflow.Encode
import Automation.Workflow.Decode

namespace Automation

open Automation.Json (Value)
open Automation.Decode (Texts)

/-! ## The web -/

/-- A request to the web. -/
structure WebRequest where
  method : String
  url : String
  headers : Texts
  body : Option Value
  /-- The milliseconds the call may take. -/
  timeout : Nat
  deriving Repr, Inhabited

/-- What came back from the web. -/
structure WebResponse where
  status : Nat
  headers : Texts
  body : Value
  deriving Repr, Inhabited

/-- Whether the status stands for success. -/
def WebResponse.isSuccess (r : WebResponse) : Bool :=
  200 ≤ r.status && r.status < 300

/-- The JSON value of a response. -/
def WebResponse.toJson (r : WebResponse) : Value :=
  .ofFields [
    ("status", .ofNat r.status),
    ("headers", r.headers.toJson),
    ("body", r.body)]

open Decode in
/-- Read a response. -/
def WebResponse.decode : Decoder WebResponse :=
  Reader.decode "HttpResponse" <|
    WebResponse.mk <$> required "status" (natural .u16)
      <*> required "headers" texts
      <*> required "body" any

/-! ## Scripts -/

/-- A script to be run. -/
structure ScriptRequest where
  language : String
  code : String
  /-- What the script finds under the name `input`. -/
  input : Value
  /-- The milliseconds the script may take. -/
  timeout : Nat
  deriving Repr, Inhabited

/-- What a script has left. -/
structure ScriptOutcome where
  result : Value
  /-- Zero unless the script ended by an error. -/
  exitCode : Int
  /-- The lines that were printed. -/
  stdout : List String
  error : Option String
  /-- The milliseconds the script took. -/
  duration : Nat
  deriving Repr, Inhabited

/-- The JSON value of an outcome. -/
def ScriptOutcome.toJson (o : ScriptOutcome) : Value :=
  .ofFields [
    ("result", o.result),
    ("exitCode", .ofInt o.exitCode),
    ("stdout", .ofTexts o.stdout),
    ("error", .ofOptionalText o.error),
    ("durationMs", .ofNat o.duration)]

open Decode in
/-- Read an outcome. -/
def ScriptOutcome.decode : Decoder ScriptOutcome :=
  Reader.decode "ScriptOutcome" <|
    ScriptOutcome.mk <$> required "result" any
      <*> required "exitCode" (integer .i32)
      <*> required "stdout" (list text)
      <*> nullableField "error" text
      <*> required "durationMs" (natural .u64)

/-- Why a script in this language is not run. -/
def ScriptRequest.unsupported (language : String) : String :=
  "Unsupported script language: " ++ language

end Automation
