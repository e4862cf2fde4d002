/-
Automation.Proofs.Run.VeilTheorems — records of runs behind a veil.

Two runs that are alike may find different texts in their variables: a node
may tell the time in its output. A `Veil` says what is seen of the value of
each variable. The output of a node is seen as the variable is that keeps it,
and the variables that a node has found as input are seen as those in the
context; of the rest of a record everything is seen.

Records that are the same behind a veil stay so when nodes are started, closed
with verdicts that are the same behind it (`Verdict.Veiled`) and handed in:
the steps by which a record grows commute with the veil. To the store the
values of variables do not matter at all (`Veil.run_recasts`).
-/
import Automation.Proofs.Json.FieldTheorems
import Automation.Proofs.Json.OutlineTheorems
import Automation.Proofs.Run.RecastTheorems
import Automation.Proofs.Run.ViewTheorems

namespace Automation

open Automation.Json (Value Fields)

/-- What is seen of the values of variables. -/
structure Veil where
  /-- What is seen of a value that the variable of this name has. -/
  see : String → Value → Value := fun _ value => value

/-! ## What is seen -/

namespace Veil

/-- The variables. -/
def fields (v : Veil) (vars : Fields) : Fields :=
  vars.map fun (key, value) => (key, v.see key value)

/-- The context of a run. -/
def context (v : Veil) (c : Context) : Context :=
  { c with vars := v.fields c.vars }

/-- A part of the input of a node: its data, or the variables that it found. -/
def part (v : Veil) (key : String) : Value → Value
  | .object fields => .object (if key = "variables" then v.fields fields else fields)
  | value => value

/-- The input of a node. -/
def input (v : Veil) : Value → Value
  | .object fields => .object (fields.map fun (key, value) => (key, v.part key value))
  | value => value

/-- The record of a node. -/
def node (v : Veil) (r : NodeRun) : NodeRun :=
  { r with
    input := v.input r.input
    output := r.output.map (v.see (Context.outputKey r.nodeId)) }

/-- The record of a run. -/
def run (v : Veil) (r : Run) : Run :=
  { r with
    context := v.context r.context
    nodes := r.nodes.map v.node }

/-- What a node of this id gives to the run. -/
def output (v : Veil) (id : String) (o : Output) : Output :=
  { o with value := v.see (Context.outputKey id) o.value }

variable (v : Veil)

/-! ## Variables -/

theorem fields_insert (key : String) (value : Value) (vars : Fields) :
    v.fields (vars.insert key value) = (v.fields vars).insert key (v.see key value) := by
  induction vars with
  | nil => rfl
  | cons field rest ih =>
    obtain ⟨k, x⟩ := field
    have ih : List.map _ (Fields.insert key value rest) = _ := ih
    simp only [fields, List.map_cons, Fields.insert]
    split
    · rfl
    · split
      · rfl
      · rw [List.map_cons, ih]
        rfl

theorem get?_fields (vars : Fields) (key : String) :
    (v.fields vars).get? key = (vars.get? key).map (v.see key) := by
  induction vars with
  | nil => rfl
  | cons field rest ih =>
    obtain ⟨k, x⟩ := field
    have ih : Fields.get? (List.map _ rest) key = _ := ih
    rw [fields, List.map_cons, Fields.get?_cons, Fields.get?_cons, ih]
    split
    · next heq => rw [heq, Option.map_some]
    · rfl

/-! ## Records of nodes -/

theorem node_start (node : Node) (vars : Fields) (now : Nat) :
    v.node (.start node vars now) = .start node (v.fields vars) now := by
  have hpart : ∀ value, v.part "data" value = value := by
    intro value
    cases value <;> rfl
  have hinput : ∀ vars : Value, Value.ofFields [("data", node.data), ("variables", vars)] =
      .object [("data", node.data), ("variables", vars)] := by
    intro vars
    have hsorted : Fields.Sorted [("data", node.data), ("variables", vars)] :=
      List.pairwise_pair.mpr (by decide : "data" < "variables")
    rw [Value.ofFields, Fields.ofList_of_sorted hsorted]
  simp only [Veil.node, NodeRun.start, hinput, input, List.map_cons, List.map_nil, hpart,
    Option.map_none]
  rfl

/-! ## Records of runs -/

section

variable (r : Run)

theorem run_addNode (record : NodeRun) :
    v.run (r.addNode record) = (v.run r).addNode (v.node record) := by
  simp [run, Run.addNode]

theorem run_updateNode (record : NodeRun) :
    v.run (r.updateNode record) = (v.run r).updateNode (v.node record) := by
  simp [run, Run.updateNode, List.map_dropLast]

theorem run_finish (status : RunStatus) (now : Nat) :
    v.run (r.finish status now) = (v.run r).finish status now := rfl

theorem run_fail (error : String) (now : Nat) :
    v.run (r.fail error now) = (v.run r).fail error now := rfl

/-- The values of variables do not matter to what the store does with a record. -/
theorem run_recasts : Run.Recasts fun _ => v.run where
  id _ _ := rfl
  cancel? _ r now := by
    unfold Run.cancel?
    change (if r.status.isTerminal then _ else _) = _
    split <;> rfl
  merge _ stored r := by
    unfold Store.merge
    change (if stored.status == .cancelled then _ else _) = _
    split <;> rfl

theorem run_cancel (now : Nat) : v.run (r.cancel now) = (v.run r).cancel now := by
  unfold Run.cancel
  rw [v.run_recasts.cancel? "" r now]
  cases r.cancel? now <;> rfl

/-- It is one whether a record is first veiled and then seen elsewhere. -/
theorem run_view (view : View) : v.run (view.run r) = view.run (v.run r) := by
  simp [run, View.run, View.context, context, View.node, node, Function.comp_def]

end

/-- Where the values are seen as they are, everything is. -/
@[simp] theorem run_clear (r : Run) : ({} : Veil).run r = r := by
  have hfields : ∀ vars, ({} : Veil).fields vars = vars := by
    simp [fields]
  have hpart : ∀ key value, ({} : Veil).part key value = value := by
    intro key value
    cases value <;> simp [part, hfields]
  have hinput : ∀ value, ({} : Veil).input value = value := by
    intro value
    cases value <;> simp [input, hpart]
  have hnode : ∀ record : NodeRun, ({} : Veil).node record = record := by
    simp [node, hinput]
  have hnodes : r.nodes.map ({} : Veil).node = r.nodes := by
    rw [funext hnode, List.map_id']
  simp [run, context, hfields, hnodes]

end Veil

/-! ## Attempts and verdicts -/

/-- Two verdicts on a node of this id that are the same behind the veil. -/
inductive Verdict.Veiled (v : Veil) (id : String) : Verdict → Verdict → Prop
  | completed {o o' : Output} (h : v.output id o = v.output id o') :
    Veiled v id (.completed o) (.completed o')
  | failed (error : String) : Veiled v id (.failed error) (.failed error)
  | cancelled : Veiled v id .cancelled .cancelled
  | timedOut : Veiled v id .timedOut .timedOut

/-- Two attempts end in the same way behind the veil. -/
structure Finish.Veiled (v : Veil) (id : String) (f f' : Finish) : Prop where
  lasts : f.lasts = f'.lasts
  closing : f.closing = f'.closing
  verdict : (Verdict.ofEnding f.ending).Veiled v id (.ofEnding f'.ending)

/-- Two attempts are the same behind the veil. -/
structure Attempt.Veiled (v : Veil) (id : String) (a a' : Attempt) : Prop where
  cost : a.cost = a'.cost
  opening : a.opening = a'.opening
  finish : Option.Rel (Finish.Veiled v id) a.finish a'.finish

/-- In contexts that are the same behind the veil, two executors begin attempts
that are the same behind it, and do the same with collaborators. -/
def Executor.Veiled (v : Veil) (node : Node) (executor executor' : Executor) : Prop :=
  ∀ (around : Surroundings) (context : Context) services,
    v.context around.context = v.context context →
    let answer := executor node around services
    let answer' := executor' node { around with context } services
    answer.1.Veiled v node.id answer'.1 ∧ answer.2 = answer'.2

/-- What is behind the veil is all that an executor looks at: in contexts that are
the same behind it, the attempts at the node are the same. -/
def Executor.Ignores (executor : Executor) (v : Veil) (node : Node) : Prop :=
  ∀ (around : Surroundings) (context : Context) services,
    v.context around.context = v.context context →
    (executor node around services).1 = (executor node { around with context } services).1

theorem Verdict.Veiled.refl (v : Veil) (id : String) :
    ∀ verdict : Verdict, verdict.Veiled v id verdict
  | .completed _ => .completed rfl
  | .failed error => .failed error
  | .cancelled => .cancelled
  | .timedOut => .timedOut

theorem Attempt.Veiled.refl (v : Veil) (id : String) (a : Attempt) : a.Veiled v id a where
  cost := rfl
  opening := rfl
  finish := by
    cases a.finish with
    | none => exact .none
    | some finish => exact .some ⟨rfl, rfl, .refl v id _⟩

namespace Veil

variable {v : Veil} {id : String} {verdict verdict' : Verdict}

/-- Verdicts leave the same notes. -/
theorem note_eq (h : verdict.Veiled v id verdict') (settings : Settings) (node : Node) :
    verdict.note settings node = verdict'.note settings node := by
  cases h <;> rfl

/-- What a node leaves behind. -/
theorem node_close (h : verdict.Veiled v id verdict') {started started' : NodeRun}
    (hid : started.nodeId = id) (hstarted : v.node started = v.node started')
    (settings : Settings) (node : Node) (now number : Nat) (log : Logger) :
    v.node (started.close settings node now number log verdict) =
      v.node (started'.close settings node now number log verdict') := by
  have hid' : started'.nodeId = id := (congrArg NodeRun.nodeId hstarted).symm.trans hid
  have hconclude : v.node (started.conclude settings now verdict) =
      v.node (started'.conclude settings now verdict') := by
    cases h with
    | @completed o o' h =>
      have hvalue : v.see (Context.outputKey id) o.value = v.see (Context.outputKey id) o'.value :=
        congrArg Output.value h
      have hcomplete : ∀ (r : NodeRun) (o : Output), r.nodeId = id →
          v.node (r.complete o.value now) =
            (v.node r).complete (v.see (Context.outputKey id) o.value) now := by
        rintro r o rfl
        rfl
      have hcompleted := hcomplete started o hid
      rw [hstarted, hvalue] at hcompleted
      exact hcompleted.trans (hcomplete started' o' hid').symm
    | failed error => exact congrArg (·.fail error now) hstarted
    | cancelled => exact congrArg (·.cancel now) hstarted
    | timedOut => exact congrArg (·.fail settings.timeoutMessage now) hstarted
  change { v.node (started.conclude settings now verdict) with
    attempts := number
    logs := (log.write now (verdict.note settings node)).entries } = _
  rw [hconclude, note_eq h]
  rfl

/-- What a node leaves in the context. -/
theorem run_absorb {node : Node} (h : verdict.Veiled v node.id verdict') {r r' : Run}
    (hr : v.run r = v.run r') :
    v.run { r with context := r.context.absorb node verdict } =
      v.run { r' with context := r'.context.absorb node verdict' } := by
  cases h with
  | @completed o o' h =>
    have habsorb : ∀ (r : Run) (o : Output),
        v.run { r with context := r.context.absorb node (.completed o) } =
          { v.run r with
            context := (v.run r).context.absorb node (.completed (v.output node.id o)) } := by
      intro r o
      simp only [run, context, Context.absorb, Context.recordOutput, Context.recordTasks,
        fields_insert, output]
    rw [habsorb, habsorb, hr, h]
  | failed error => exact hr
  | cancelled => exact hr
  | timedOut => exact hr

end Veil

end Automation
