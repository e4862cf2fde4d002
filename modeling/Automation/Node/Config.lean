/-
Automation.Node.Config — what the data of a node say.

Each type of node wants data of its own form. Data of the value `null`
are read like an empty object, so that a node whose fields may all be left
out needs no data.
-/
import Automation.Node.Attempt

namespace Automation

open Automation.Json (Value Fields)
open Automation.Decode

/-- Read the data of a node, of which placeholders may have been filled
in. -/
def Node.configure {α : Type} (node : Node) (decode : Decoder α) (data : Value) :
    Except NodeError α :=
  (decode (.ofValue (if data.isNull then .object [] else data))).mapError
    (.badConfig node.type node.id)

/-! ## Choices and waits -/

/-- A value and the port it leads to. -/
structure BranchCase where
  value : Value
  port : String

/-- Read a case. -/
def BranchCase.decode : Decoder BranchCase :=
  Reader.decode "BranchCase" <|
    BranchCase.mk <$> required "value" any <*> required "port" text

/-- The data of a branch. -/
structure BranchConfig where
  field : String
  cases : List BranchCase
  /-- The port when no case fits. -/
  defaultPort : String

/-- Read the data of a branch. -/
def BranchConfig.decode : Decoder BranchConfig :=
  Reader.decode "BranchConfig" <|
    BranchConfig.mk <$> required "field" text
      <*> optional "cases" (list BranchCase.decode) []
      <*> optional "defaultPort" text "default"

/-- A unit of time. -/
inductive DelayUnit where
  | seconds | minutes | hours | days
  deriving DecidableEq, Repr

/-- The names that are read for the units. -/
def DelayUnit.names : List (String × DelayUnit) := [
  ("second", .seconds), ("seconds", .seconds), ("minute", .minutes), ("minutes", .minutes),
  ("hour", .hours), ("hours", .hours), ("day", .days), ("days", .days)]

/-- The milliseconds in a unit. -/
def DelayUnit.milliseconds : DelayUnit → Float
  | .seconds => 1000
  | .minutes => 60000
  | .hours => 3600000
  | .days => 86400000

/-- The data of a delay. -/
structure DelayConfig where
  duration : Float
  unit : DelayUnit

/-- Read the data of a delay. -/
def DelayConfig.decode : Decoder DelayConfig :=
  Reader.decode "DelayConfig" <|
    DelayConfig.mk <$> requiredAs "duration" ["value"] double
      <*> optional "unit" (variant DelayUnit.names) .seconds

/-- The delay in whole milliseconds, which must fit into sixty-four bits
and else is the longest that does; nothing if it is negative. -/
def DelayConfig.milliseconds? (c : DelayConfig) : Option Nat :=
  if !c.duration.isFinite || c.duration < 0 then none
  else
    some (min (Decimal.Binary.ofFloat (c.duration * c.unit.milliseconds)).nearest Text.largest64)

/-! ## Calls -/

/-- The data of an action. -/
structure ActionConfig where
  actionType : String
  parameters : Value

/-- Read the data of an action. -/
def ActionConfig.decode : Decoder ActionConfig :=
  Reader.decode "ActionConfig" <|
    ActionConfig.mk <$> requiredAs "actionType" ["type"] text
      <*> optional "parameters" any .null

/-- Read the data of a notification node. -/
def decodeNotification : Decoder Notification :=
  Reader.decode "NotificationConfig" <|
    Notification.mk <$> required "recipients" (list text)
      <*> required "message" text
      <*> optionalAs "type" ["channel"] text "in_app"
      <*> perhaps "subject" text

/-- The data of a webhook. -/
structure WebhookConfig where
  url : String
  method : String
  headers : Texts
  body : Option Value
  timeout : Option Nat

/-- Read the data of a webhook. -/
def WebhookConfig.decode : Decoder WebhookConfig :=
  Reader.decode "WebhookConfig" <|
    WebhookConfig.mk <$> required "url" text
      <*> optional "method" text "POST"
      <*> optional "headers" texts []
      <*> perhaps "body" any
      <*> perhaps "timeoutMs" (natural .u64)

/-- The data of a script. -/
structure ScriptConfig where
  language : String
  code : String
  timeout : Option Nat

/-- Read the data of a script. -/
def ScriptConfig.decode : Decoder ScriptConfig :=
  Reader.decode "ScriptConfig" <|
    ScriptConfig.mk <$> optional "language" text "lua"
      <*> requiredAs "code" ["script"] text
      <*> perhaps "timeoutMs" (natural .u64)

/-! ## Tasks -/

/-- The data of an update of a task. -/
structure TaskUpdateConfig where
  taskId : String
  updates : Fields

/-- Read the data of an update of a task. -/
def TaskUpdateConfig.decode : Decoder TaskUpdateConfig :=
  Reader.decode "TaskUpdateConfig" <|
    TaskUpdateConfig.mk <$> required "taskId" text
      <*> optional "updates" Decode.fields []

/-- The fields of a task to be created: those under `task` if there are
any, else all. -/
def Node.taskFields (node : Node) : Value → Except NodeError Fields
  | .object fields =>
    match Fields.get? fields "task" with
    | some (.object task) => .ok task
    | some other => .error (.badTask node.id other)
    | none => .ok fields
  | .null => .ok []
  | other => .error (.badTask node.id other)

end Automation
