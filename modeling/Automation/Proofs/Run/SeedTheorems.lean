/-
Automation.Proofs.Run.SeedTheorems — what a new run begins with.

Three sources give the variables of a new run their values: the defaults of
the workflow, the payload that set the run off, and the overrides of the
caller. Each is laid over the one before, so for every key the overrides are
asked first, then the payload, and the defaults last (`seed_precedence`).
-/
import Automation.Proofs.Json.FieldTheorems
import Automation.Run.Context

namespace Automation

open Automation.Json (Value Fields)
open Automation.Time (Timestamp)

namespace Context

/-- The default of the last declared variable of a name. -/
def lastDefault? (vars : List Variable) (name : String) : Option Value :=
  (vars.reverse.find? fun v => v.name == name).map (·.default)

/-- What a payload says of a key: an object has fields of its own, and any
other payload but `null` is itself the trigger. -/
def payload? : Value → String → Option Value
  | .object fields, key => Fields.get? fields key
  | .null, _ => none
  | v, key => if key = "trigger" then some v else none

theorem get?_defaults (vars : List Variable) (name : String) :
    (defaults vars).get? name = lastDefault? vars name := by
  have hlist : Fields.get? (vars.map fun v => (v.name, v.default)).reverse name =
      lastDefault? vars name := by
    rw [← List.map_reverse, Fields.get?, List.find?_map, Option.map_map]
    rfl
  rw [defaults, Fields.ofList, Fields.get?_merge, hlist, Fields.get?_nil, Option.or_none]

theorem payloadFields_sorted {payload : Value}
    (h : ∀ fields, payload = .object fields → Fields.Sorted fields) :
    (payloadFields payload).Sorted := by
  cases payload with
  | object fields => exact h fields rfl
  | null => exact .nil
  | bool _ => exact List.pairwise_singleton _ _
  | number _ => exact List.pairwise_singleton _ _
  | string _ => exact List.pairwise_singleton _ _
  | array _ => exact List.pairwise_singleton _ _

theorem get?_payloadFields (payload : Value) (key : String) :
    (payloadFields payload).get? key = payload? payload key := by
  cases payload <;> simp [payloadFields, payload?, Fields.get?_cons, Fields.get?_nil, eq_comm]

/-- **The later source wins.** Whatever the workflow, the payload and the
overrides, a key has the value that the overrides give it; if they give it
none, the one that the payload says; if that says none, the default of the
last variable declared by that name; and no other key has a value. The user
comes from the overrides, the environment too unless they leave it open, and
no task has been touched. -/
theorem seed_precedence (w : Workflow) {payload : Value} {overrides : Overrides}
    (hpayload : ∀ fields, payload = .object fields → Fields.Sorted fields)
    (hvars : overrides.vars.Sorted) (environment : String) (now : Timestamp) :
    (∀ key, (seed w payload overrides environment now).vars.get? key =
      (overrides.vars.get? key).or ((payload? payload key).or (lastDefault? w.vars key))) ∧
    (seed w payload overrides environment now).userId = overrides.userId ∧
    (seed w payload overrides environment now).environment =
      overrides.environment.getD environment ∧
    (seed w payload overrides environment now).tasks = [] := by
  refine ⟨fun key => ?_, rfl, rfl, rfl⟩
  calc (seed w payload overrides environment now).vars.get? key
      = (overrides.vars.get? key).or
          (((defaults w.vars).merge (payloadFields payload)).get? key) := hvars.get?_merge _ key
    _ = (overrides.vars.get? key).or
          (((payloadFields payload).get? key).or ((defaults w.vars).get? key)) := by
        rw [(payloadFields_sorted hpayload).get?_merge]
    _ = _ := by rw [get?_payloadFields, get?_defaults]

/-- A workflow with two variables, one of them declared twice. -/
def repeated : Workflow :=
  { (default : Workflow) with vars := [
    { (default : Variable) with name := "x", default := .ofNat 1 },
    { (default : Variable) with name := "y", default := .ofNat 2 },
    { (default : Variable) with name := "x", default := .ofNat 3 }] }

/-- The second `x` counts, `y` comes from the payload, `z` from the overrides. -/
theorem seed_precedence_each :
    ((∀ fields, Value.object [("y", .ofNat 4), ("z", .ofNat 5)] = .object fields →
        Fields.Sorted fields) ∧ Fields.Sorted [("z", .ofNat 6)]) ∧
    ∀ now, ["w", "x", "y", "z"].map
      (seed repeated (.object [("y", .ofNat 4), ("z", .ofNat 5)])
        { vars := [("z", .ofNat 6)] } "test" now).vars.get? =
      [none, some (.ofNat 3), some (.ofNat 4), some (.ofNat 6)] := by
  have hpayload : ∀ fields, Value.object [("y", .ofNat 4), ("z", .ofNat 5)] = .object fields →
      Fields.Sorted fields := by
    rintro fields ⟨⟩
    exact List.pairwise_pair.mpr (by decide)
  have hvars : ({ vars := [("z", .ofNat 6)] } : Overrides).vars.Sorted :=
    List.pairwise_singleton _ _
  refine ⟨⟨hpayload, hvars⟩, fun now => ?_⟩
  have hvalue := (seed_precedence repeated hpayload hvars "test" now).1
  simp only [List.map_cons, List.map_nil, hvalue]
  rfl

end Context

end Automation
