/-
Automation.Workflow.Encode — writing workflows as JSON.

Every field is written; what a workflow leaves open is `null`.
-/
import Automation.Workflow.Basic

namespace Automation

open Automation.Json (Value)
open Automation.Time (Face)

/-- The value of a variant. -/
def variantJson {α : Type} [BEq α] (names : List (String × α)) (a : α) : Value :=
  .string (nameIn names a)

/-- An editor port. -/
def Port.toJson (port : Port) : Value :=
  .ofFields [
    ("id", .string port.id),
    ("name", .ofOptionalText port.name),
    ("dataType", .ofOptionalText port.dataType)]

/-- A node. -/
def Node.toJson (node : Node) : Value :=
  .ofFields [
    ("id", .string node.id),
    ("type", .string node.type.name),
    ("name", .ofOptionalText node.name),
    ("data", node.data),
    ("inputs", .array (node.inputs.map Port.toJson)),
    ("outputs", .array (node.outputs.map Port.toJson))]

/-- A connection. -/
def Connection.toJson (c : Connection) : Value :=
  .ofFields [
    ("id", .string c.id),
    ("sourceNodeId", .string c.source),
    ("targetNodeId", .string c.target),
    ("sourcePortId", .ofOptionalText c.sourcePort),
    ("targetPortId", .ofOptionalText c.targetPort)]

/-- A declared variable. -/
def Variable.toJson (v : Variable) : Value :=
  .ofFields [
    ("name", .string v.name),
    ("type", variantJson VariableType.names v.type),
    ("defaultValue", v.default),
    ("scope", variantJson VariableScope.names v.scope),
    ("description", .ofOptionalText v.description)]

/-- A retry policy. -/
def RetryPolicy.toJson (policy : RetryPolicy) : Value :=
  .ofFields [
    ("maxAttempts", .ofNat policy.maxAttempts),
    ("backoffMs", .ofNat policy.backoff),
    ("backoffMultiplier", .number (.real policy.multiplier))]

/-- Which log entries are kept. -/
def Logging.toJson (logging : Logging) : Value :=
  .ofFields [
    ("enabled", .bool logging.enabled),
    ("level", variantJson LogLevel.names logging.level)]

/-- Run settings. -/
def Settings.toJson (settings : Settings) : Value :=
  .ofFields [
    ("timeoutMs", .ofOption .ofNat settings.timeout),
    ("retryPolicy", settings.retryPolicy.toJson),
    ("errorHandling", variantJson ErrorHandling.names settings.errorHandling),
    ("logging", settings.logging.toJson)]

/-- A workflow, its dates shown by the given face of the clock. -/
def Workflow.toJson (face : Face) (w : Workflow) : Value :=
  .ofFields [
    ("id", .string w.id),
    ("name", .string w.name),
    ("description", .ofOptionalText w.description),
    ("version", .ofNat w.version),
    ("category", variantJson Category.names w.category),
    ("nodes", .array (w.nodes.map Node.toJson)),
    ("connections", .array (w.connections.map Connection.toJson)),
    ("variables", .array (w.vars.map Variable.toJson)),
    ("settings", w.settings.toJson),
    ("metadata", .object w.metadata),
    ("enabled", .bool w.enabled),
    ("createdBy", .ofOptionalText w.createdBy),
    ("createdAt", w.createdAt.toJson face),
    ("updatedAt", w.updatedAt.toJson face)]

end Automation
