/-
Automation.Workflow.Decode — reading workflows from JSON.

Every field but the ids, the name, the types and the nodes may be left
out. A connection may call its ends `source` and `target`. A workflow
without dates was created and updated now.
-/
import Automation.Workflow.Basic
import Automation.Decode.Record

namespace Automation

open Automation.Decode
open Automation.Time (Timestamp)

/-- A point in time. -/
def decodeTimestamp : Decoder Timestamp := fun o =>
  (moment o).map .moment

/-- An editor port. -/
def Port.decode : Decoder Port :=
  Reader.decode "NodePort" <|
    Port.mk <$> required "id" text <*> perhaps "name" text <*> perhaps "dataType" text

/-- A node. -/
def Node.decode : Decoder Node :=
  Reader.decode "Node" <|
    Node.mk <$> required "id" text
      <*> required "type" (variant NodeType.names)
      <*> perhaps "name" text
      <*> optional "data" any .null
      <*> optional "inputs" (list Port.decode) []
      <*> optional "outputs" (list Port.decode) []

/-- A connection. -/
def Connection.decode : Decoder Connection :=
  Reader.decode "Connection" <|
    Connection.mk <$> required "id" text
      <*> requiredAs "sourceNodeId" ["source"] text
      <*> requiredAs "targetNodeId" ["target"] text
      <*> perhaps "sourcePortId" text
      <*> perhaps "targetPortId" text

/-- A declared variable. -/
def Variable.decode : Decoder Variable :=
  Reader.decode "WorkflowVariable" <|
    Variable.mk <$> required "name" text
      <*> required "type" (variant VariableType.names)
      <*> optional "defaultValue" any .null
      <*> optional "scope" (variant VariableScope.names) .locally
      <*> perhaps "description" text

/-- A retry policy. -/
def RetryPolicy.decode : Decoder RetryPolicy :=
  Reader.decode "RetryPolicy" <|
    RetryPolicy.mk <$> optional "maxAttempts" (natural .u32) 3
      <*> optional "backoffMs" (natural .u64) 1000
      <*> optional "backoffMultiplier" double 2.0

/-- Which log entries are kept. -/
def Logging.decode : Decoder Logging :=
  Reader.decode "LoggingConfig" <|
    Logging.mk <$> optional "enabled" boolean true
      <*> optional "level" (variant LogLevel.names) .info

/-- Run settings. -/
def Settings.decode : Decoder Settings :=
  Reader.decode "WorkflowSettings" <|
    Settings.mk <$> perhaps "timeoutMs" (natural .u64)
      <*> optional "retryPolicy" RetryPolicy.decode {}
      <*> optional "errorHandling" (variant ErrorHandling.names) .stop
      <*> optional "logging" Logging.decode {}

/-- A workflow that is read at the time `now`. -/
def Workflow.decode (now : Timestamp) : Decoder Workflow :=
  Reader.decode "WorkflowDefinition" <|
    Workflow.mk <$> required "id" text
      <*> required "name" text
      <*> perhaps "description" text
      <*> optional "version" (natural .u32) 1
      <*> optional "category" (variant Category.names) .custom
      <*> required "nodes" (list Node.decode)
      <*> optional "connections" (list Connection.decode) []
      <*> optional "variables" (list Variable.decode) []
      <*> optional "settings" Settings.decode {}
      <*> optional "metadata" fields []
      <*> optional "enabled" boolean true
      <*> perhaps "createdBy" text
      <*> optional "createdAt" decodeTimestamp now
      <*> optional "updatedAt" decodeTimestamp now

end Automation
