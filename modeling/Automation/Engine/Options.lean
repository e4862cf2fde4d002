/-
Automation.Engine.Options — what a caller chooses for a run.

The overrides of the context and the source of the trigger lie in one
object. The source is looked at first, then the overrides; a list of
fields is not accepted.
-/
import Automation.Run.Record

namespace Automation

open Automation.Json (Value)
open Automation.Decode

/-- What a caller chooses for a run. -/
structure RunOptions where
  overrides : Overrides := {}
  source : TriggerSource := .manual
  deriving Repr, Inhabited

/-- The name of the field that holds the source. -/
def RunOptions.sourceField : String := "triggerSource"

/-- The JSON value of options. -/
def RunOptions.toJson (o : RunOptions) : Value :=
  .ofFields (o.overrides.toFields ++ [
    (RunOptions.sourceField, variantJson TriggerSource.names o.source)])

/-- Read options. -/
def RunOptions.decode : Decoder RunOptions
  | .object fields closed => do
    let source ←
      match fields.find? fun (k, _) => k.text? == some sourceField with
      | some (_, o) => variant TriggerSource.names o
      | none => pure .manual
    let overrides ← Overrides.decode (.object fields closed)
    return { overrides, source }
  | o => refuse (.record "ExecutionOptions") o

end Automation
