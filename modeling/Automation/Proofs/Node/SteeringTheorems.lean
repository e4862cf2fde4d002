/-
Automation.Proofs.Node.SteeringTheorems — nodes that only steer a run.

Triggers, conditions, branches and delays call nobody: they say that the run
has begun, choose the way on, or let time pass. What a condition or a branch
comes to depends on what is found in the context, and that does not depend
on when the run began (`Context.interpolate_congr` and what is built on it).
A trigger and a delay tell the time, which they read off the clock. So on
two clocks of which one is ahead, as long as both show the same texts, the
executors of these nodes begin the same attempts (`Executor.Keeps`), and none
of the attempts hangs.

If the clocks show different texts, then what triggers and delays tell differs
in these texts. Everything else is seen behind the veil `Workflow.timeless`.
A workflow is `Heedless` if its conditions and branches look at nothing but
that; then its nodes are executed alike behind the veil
(`Executors.builtin_veiled`).
-/
import Automation.Proofs.Engine.StopTheorems
import Automation.Proofs.Run.OutputTheorems
import Automation.Proofs.Run.VeilTheorems

namespace Automation

open Automation.Json (Value Fields)
open Automation.Time (Timestamp Face)

/-! ## Looking things up -/

/-- The paths at which a condition looks. -/
def Condition.looks (condition : Condition) : List (List Char) :=
  condition.clauses.flatMap fun clause =>
    clause.field.toList :: Context.asksOf clause.value.texts

/-- The paths at which cases look. -/
def BranchCase.looks (cases : List BranchCase) : List (List Char) :=
  cases.flatMap fun case => Context.asksOf case.value.texts

/-- The paths at which a branch looks. -/
def BranchConfig.looks (config : BranchConfig) : List (List Char) :=
  config.field.toList :: BranchCase.looks config.cases

namespace Context

open Template

/-- In both contexts the same is found at these paths. -/
def Agree (c c' : Context) (paths : List (List Char)) : Prop :=
  ∀ path ∈ paths, c.resolve path = c'.resolve path

section

variable {c c' : Context}

theorem fillAll_congr {pieces : List Piece} (h : c.Agree c' (pieces.filterMap Piece.path?)) :
    c.fillAll pieces = c'.fillAll pieces := by
  induction pieces with
  | nil => rfl
  | cons piece pieces ih =>
    cases piece with
    | literal s => simp only [fillAll, fill, ih h]
    | placeholder path =>
      have hfirst := h path List.mem_cons_self
      have hrest : c.Agree c' (pieces.filterMap Piece.path?) :=
        fun path hpath => h path (List.mem_cons_of_mem _ hpath)
      simp only [fillAll, fill, hfirst, ih hrest]

theorem interpolateText_congr {text : String} (h : c.Agree c' (asks text.toList)) :
    c.interpolateText text = c'.interpolateText text := by
  unfold interpolateText
  unfold asks at h
  cases hwhole : whole? text.toList with
  | some path =>
    rw [hwhole] at h
    exact h path List.mem_cons_self
  | none =>
    rw [hwhole] at h
    exact congrArg (Except.map Value.string) (fillAll_congr h)

theorem Agree.left {paths paths' : List (List Char)} (h : c.Agree c' (paths ++ paths')) :
    c.Agree c' paths :=
  fun path hpath => h path (List.mem_append_left _ hpath)

theorem Agree.right {paths paths' : List (List Char)} (h : c.Agree c' (paths ++ paths')) :
    c.Agree c' paths' :=
  fun path hpath => h path (List.mem_append_right _ hpath)

theorem agree_asksOf_append {texts texts' : List String} :
    c.Agree c' (asksOf (texts ++ texts')) ↔ c.Agree c' (asksOf texts ++ asksOf texts') := by
  rw [asksOf, List.flatMap_append]
  rfl

mutual

/-- What is filled in for a value hangs on what is found at the paths that its texts
ask for. -/
theorem interpolate_congr : ∀ {v : Value}, c.Agree c' (asksOf v.texts) →
    c.interpolate v = c'.interpolate v
  | .string text, h => by
    rw [Value.texts, asksOf, List.flatMap_singleton] at h
    simp only [interpolate, interpolateText_congr h]
  | .array items, h => by simp only [interpolate, interpolateItems_congr h]
  | .object fields, h => by simp only [interpolate, interpolateFields_congr h]
  | .null, _ => by simp only [interpolate]
  | .bool _, _ => by simp only [interpolate]
  | .number _, _ => by simp only [interpolate]

theorem interpolateItems_congr : ∀ {items : List Value},
    c.Agree c' (asksOf (Value.textsOfItems items)) →
      c.interpolateItems items = c'.interpolateItems items
  | [], _ => by simp only [interpolateItems]
  | v :: rest, h => by
    have h := agree_asksOf_append.mp h
    simp only [interpolateItems, interpolate_congr h.left, interpolateItems_congr h.right]

theorem interpolateFields_congr : ∀ {fields : List (String × Value)},
    c.Agree c' (asksOf (Value.textsOfFields fields)) →
      c.interpolateFields fields = c'.interpolateFields fields
  | [], _ => by simp only [interpolateFields]
  | (key, v) :: rest, h => by
    have h := agree_asksOf_append.mp h
    simp only [interpolateFields, interpolate_congr h.left, interpolateFields_congr h.right]

end

/-- Whether a condition is met hangs on what is found where it looks. -/
theorem satisfies_congr {condition : Condition} (h : c.Agree c' condition.looks) :
    c.satisfies condition = c'.satisfies condition := by
  obtain ⟨clauses, logic⟩ := condition
  have hclauses : c.decideAll clauses = c'.decideAll clauses := by
    induction clauses with
    | nil => rfl
    | cons clause clauses ih =>
      have hclause : c.Agree c' (clause.field.toList :: asksOf clause.value.texts) := h.left
      have hfield := hclause _ List.mem_cons_self
      have hvalue : c.interpolate clause.value = c'.interpolate clause.value :=
        interpolate_congr fun path hpath => hclause path (List.mem_cons_of_mem _ hpath)
      simp only [decideAll, decide, hfield, hvalue, ih h.right]
  simp only [satisfies, hclauses]

/-- Which case fits hangs on what is found where the cases look. -/
theorem firstCase_congr (value : Value) {cases : List BranchCase}
    (h : c.Agree c' (BranchCase.looks cases)) :
    Executor.firstCase c value cases = Executor.firstCase c' value cases := by
  induction cases with
  | nil => rfl
  | cons first rest ih => simp only [Executor.firstCase, interpolate_congr h.left, ih h.right]

end

end Context

/-- It does not matter when the run began. -/
theorem View.context_resolve (v : View) (c : Context) : (v.context c).resolve = c.resolve := rfl

/-! ## Steering -/

/-- Whether nodes of this type only steer the run. -/
def NodeType.steers : NodeType → Bool
  | .trigger | .condition | .branch | .delay => true
  | _ => false

namespace Executor

/-- On clocks of which one is ahead, two executors begin the same attempt, which
does not hang. -/
structure Keeps (later : Nat) (node : Node) (executor executor' : Executor) : Prop where
  same : ∀ (context : Context) (id id' workflowId : String) now services services',
    (executor node ⟨{ context with timestamp := context.timestamp.later later }, id, workflowId,
        now + later⟩ services).1 =
      (executor' node ⟨context, id', workflowId, now⟩ services').1
  finish : ∀ around services, (executor' node around services).1.finish.isSome = true

theorem immediate_finish (work : Node → Surroundings → Except NodeError (Note × Output))
    (node : Node) (around : Surroundings) (services : Services) :
    (immediate work node around services).1.finish.isSome = true := by
  unfold immediate
  cases work node around <;> rfl

theorem immediate_congr {work work' : Node → Surroundings → Except NodeError (Note × Output)}
    {node : Node} {around around' : Surroundings} (h : work node around = work' node around')
    (services services' : Services) :
    (immediate work node around services).1 = (immediate work' node around' services').1 := by
  unfold immediate
  rw [h]
  cases work' node around' <;> rfl

section

variable {node : Node} {around around' : Surroundings}

/-- A condition comes to the same where the same is found at the paths at which it
looks. -/
theorem condition_congr (h : ∀ condition, node.configure Condition.decode node.data = .ok condition →
    around.context.Agree around'.context condition.looks) (services services' : Services) :
    (condition node around services).1 = (condition node around' services').1 := by
  refine immediate_congr ?_ services services'
  cases hspec : node.configure Condition.decode node.data with
  | error e => rfl
  | ok spec =>
    dsimp only [bind, Except.bind]
    rw [Context.satisfies_congr (h spec hspec)]

/-- A branch comes to the same where the same is found at the paths at which it
looks. -/
theorem branch_congr (h : ∀ config, node.configure BranchConfig.decode node.data = .ok config →
    around.context.Agree around'.context config.looks) (services services' : Services) :
    (branch node around services).1 = (branch node around' services').1 := by
  refine immediate_congr ?_ services services'
  cases hconfig : node.configure BranchConfig.decode node.data with
  | error e => rfl
  | ok config =>
    have hlooks := h config hconfig
    have hfield := hlooks _ List.mem_cons_self
    have hcase := fun value => Context.firstCase_congr value
      fun path hpath => hlooks path (List.mem_cons_of_mem _ hpath)
    dsimp only [bind, Except.bind]
    simp only [hfield, hcase]

end

section

variable {face face' : Face} {later : Nat} (hface : ∀ n, face.instant (n + later) = face'.instant n)
  (node : Node)

include hface in
theorem trigger_keeps : Keeps later node (trigger face) (trigger face') where
  same context id id' workflowId now services services' := by
    refine immediate_congr ?_ services services'
    simp only [Timestamp.toJson, Timestamp.render, hface]
  finish around services := immediate_finish _ node around services

theorem condition_keeps : Keeps later node condition condition where
  same context _ _ _ _ services services' :=
    condition_congr (fun _ _ path _ => congrFun (View.context_resolve { later } context) path)
      services services'
  finish around services := immediate_finish _ node around services

theorem branch_keeps : Keeps later node branch branch where
  same context _ _ _ _ services services' :=
    branch_congr (fun _ _ path _ => congrFun (View.context_resolve { later } context) path)
      services services'
  finish around services := immediate_finish _ node around services

include hface in
theorem delay_keeps : Keeps later node (delay face) (delay face') where
  same context id id' workflowId now services services' := by
    unfold delay prepared
    dsimp only
    cases delayTime node with
    | error e => rfl
    | ok ms =>
      simp only [Timestamp.toJson, Timestamp.render, Nat.add_right_comm now later, hface]
  finish around services := by
    unfold delay prepared
    dsimp only
    cases delayTime node <;> rfl

end

end Executor

/-- **Nodes that only steer** are executed alike on both clocks, if at all. -/
theorem Executors.builtin_keeps {face face' : Face} {later : Nat}
    (hface : ∀ n, face.instant (n + later) = face'.instant n) (types : List NodeType)
    (config : EngineConfig) {node : Node} (hnode : node.type.steers = true) :
    Option.Rel (Executor.Keeps later node) (only types (builtin face config) node.type)
      (only types (builtin face' config) node.type) := by
  unfold only
  split
  · cases htype : node.type with
    | trigger => exact .some (Executor.trigger_keeps hface node)
    | condition => exact .some (Executor.condition_keeps node)
    | branch => exact .some (Executor.branch_keeps node)
    | delay => exact .some (Executor.delay_keeps hface node)
    | _ => rw [htype] at hnode; cases hnode
  · exact .none

/-- A workflow whose nodes only steer does not hang. -/
theorem Executors.builtin_prompt {face : Face} (types : List NodeType) (config : EngineConfig)
    {w : Workflow} (hw : ∀ node ∈ w.nodes, node.type.steers = true) :
    (only types (builtin face config)).Prompt w := by
  intro node hnode executor hexecutor around services
  have hface : ∀ n, face.instant (n + 0) = face.instant n := fun _ => rfl
  have hkeeps := builtin_keeps hface types config (hw node hnode)
  rw [hexecutor] at hkeeps
  cases hkeeps with
  | some hkeeps => exact hkeeps.finish around services

/-! ## Steering without the clock -/

/-- Whether nodes of this type tell the time. -/
def NodeType.tellsTime : NodeType → Bool
  | .trigger | .delay => true
  | _ => false

/-- The output of a trigger without the time at which it was fired, or that of a
delay without the time at which it was over. -/
def Json.Value.timeless : Value → Value
  | .object fields => .object (Fields.erase "resumedAt" (Fields.erase "timestamp" fields))
  | value => value

/-- Whether the variable of this name keeps what a trigger or a delay tells. -/
def Workflow.tellsTime (w : Workflow) (key : String) : Bool :=
  w.nodes.any fun node => node.type.tellsTime && Context.outputKey node.id == key

/-- What is seen of the variables of a workflow but for the fields in which its
triggers and delays tell the time. -/
def Workflow.timeless (w : Workflow) : Veil where
  see key value := if w.tellsTime key then value.timeless else value

/-- No condition and no branch of the workflow looks at the fields in which its
triggers and delays tell the time. -/
def Workflow.Heedless (w : Workflow) : Prop :=
  ∀ node ∈ w.nodes,
    (node.type = .condition → Executor.condition.Ignores w.timeless node) ∧
    (node.type = .branch → Executor.branch.Ignores w.timeless node)

/-! ### Where conditions and branches look -/

/-- The path does not lead behind the veil: in contexts of which the same is seen,
the same is found there. -/
def Veil.Spares (v : Veil) (path : List Char) : Prop :=
  ∀ c c' : Context, v.context c = v.context c' → c.resolve path = c'.resolve path

/-- Whether the keys behind the root of the variables lead past the time: to
a variable that keeps no time, or to another field of one that does. -/
def Workflow.sparesTime (w : Workflow) : List (List Char) → Bool
  | [] => false
  | [key] => !w.tellsTime (String.ofList key)
  | key :: field :: _ => !w.tellsTime (String.ofList key) ||
    !(["timestamp", "resumedAt"].contains (String.ofList field))

/-- The fields that tell no time are found. -/
theorem Json.Value.step_timeless (value : Value) {field : List Char}
    (h : String.ofList field ∉ ["timestamp", "resumedAt"]) :
    Path.step value.timeless field = Path.step value field := by
  cases value with
  | object fields =>
    have h₁ : String.ofList field ≠ "timestamp" := fun heq => h (by simp [heq])
    have h₂ : String.ofList field ≠ "resumedAt" := fun heq => h (by simp [heq])
    simp only [timeless, Path.step, Fields.get?_erase, if_neg h₁, if_neg h₂]
  | _ => rfl

/-- **A path into the variables that leads past the time** does not lead behind the
veil. -/
theorem Workflow.spares_of_trim {w : Workflow} {path : List Char} (rest : List Char)
    (htrim : Text.trim path = "variables".toList ++ '.' :: rest)
    (h : w.sparesTime (Path.segments rest) = true) : w.timeless.Spares path := by
  intro c c' hcontext
  have hvars : w.timeless.fields c.vars = w.timeless.fields c'.vars :=
    (congrArg Context.vars hcontext :)
  have hget : ∀ key, (c.vars.get? key).map (w.timeless.see key) =
      (c'.vars.get? key).map (w.timeless.see key) := by
    intro key
    rw [← Veil.get?_fields, hvars, Veil.get?_fields]
  have hkept : ∀ key, w.tellsTime key = false → c.vars.get? key = c'.vars.get? key := by
    intro key hkey
    have hsee : w.timeless.see key = fun value => value := by
      funext value
      simp [timeless, hkey]
    simpa [hsee] using hget key
  have htold : ∀ key, w.tellsTime key = true → ((c.vars.get? key).getD .null).timeless =
      ((c'.vars.get? key).getD .null).timeless := by
    intro key hkey
    have hsee : w.timeless.see key = Value.timeless := by
      funext value
      simp [timeless, hkey]
    have hmap := hget key
    rw [hsee] at hmap
    have hgetD : ∀ value? : Option Value, (value?.getD .null).timeless =
        (value?.map Value.timeless).getD .null := by
      intro value?
      cases value? <;> rfl
    rw [hgetD, hmap, ← hgetD]
  rw [Context.resolve_vars c htrim, Context.resolve_vars c' htrim]
  refine congrArg Except.ok ?_
  cases hsegments : Path.segments rest with
  | nil => rw [hsegments] at h; cases h
  | cons key fields =>
    rw [hsegments] at h
    simp only [List.foldl_cons]
    cases hkey : w.tellsTime (String.ofList key) with
    | false => simp only [Path.step, hkept _ hkey]
    | true =>
      cases fields with
      | nil => simp [sparesTime, hkey] at h
      | cons field more =>
        have hfield : String.ofList field ∉ ["timestamp", "resumedAt"] := by
          simpa [sparesTime, hkey] using h
        have hstep := congrArg (Path.step · field) (htold _ hkey)
        rw [Value.step_timeless _ hfield, Value.step_timeless _ hfield] at hstep
        simp only [List.foldl_cons]
        exact congrArg (List.foldl Path.step · more) hstep

/-- **A workflow is heedless** if none of the paths at which its conditions and
branches look leads to the texts of the clock. -/
theorem Workflow.heedless_of_spares {w : Workflow}
    (hcondition : ∀ node ∈ w.nodes, node.type = .condition → ∀ condition,
      node.configure Condition.decode node.data = .ok condition →
        ∀ path ∈ condition.looks, w.timeless.Spares path)
    (hbranch : ∀ node ∈ w.nodes, node.type = .branch → ∀ config,
      node.configure BranchConfig.decode node.data = .ok config →
        ∀ path ∈ config.looks, w.timeless.Spares path) : w.Heedless := by
  refine fun node hnode => ⟨fun htype around context services hcontext => ?_,
    fun htype around context services hcontext => ?_⟩
  · refine Executor.condition_congr (fun condition hread path hpath => ?_) services services
    exact hcondition node hnode htype condition hread path hpath _ _ hcontext
  · refine Executor.branch_congr (fun config hread path hpath => ?_) services services
    exact hbranch node hnode htype config hread path hpath _ _ hcontext

namespace Executor

section

variable {v : Veil} {node : Node}

/-- The output is seen in the same way, whatever the clock shows. -/
theorem timeless_see {w : Workflow} (hnode : node ∈ w.nodes) (htells : node.type.tellsTime = true)
    (value : Value) : w.timeless.see (Context.outputKey node.id) value = value.timeless := by
  refine if_pos (List.any_eq_true.mpr ⟨node, hnode, ?_⟩)
  rw [htells, beq_self_eq_true]
  rfl

/-- Who ignores what is veiled does the same behind the veil. -/
theorem Ignores.veiled {work : Node → Surroundings → Except NodeError (Note × Output)}
    (h : (immediate work).Ignores v node) : Veiled v node (immediate work) (immediate work) := by
  intro around context services hcontext
  have hsame := h around context services hcontext
  have hservices : ∀ around, (immediate work node around services).2 = services := by
    intro around
    unfold immediate
    cases work node around <;> rfl
  dsimp only
  rw [hsame, hservices, hservices]
  exact ⟨.refl v node.id _, rfl⟩

variable {w : Workflow} (hnode : node ∈ w.nodes) (face face' : Face)

include hnode

theorem trigger_veiled (htype : node.type = .trigger) :
    Veiled w.timeless node (trigger face) (trigger face') := by
  intro around context services _
  have hsee := timeless_see hnode (by rw [htype]; rfl)
  refine ⟨⟨rfl, rfl, .some ⟨rfl, rfl, .completed ?_⟩⟩, rfl⟩
  simp only [Veil.output, hsee]
  rfl

theorem delay_veiled (htype : node.type = .delay) :
    Veiled w.timeless node (delay face) (delay face') := by
  intro around context services _
  have hsee := timeless_see hnode (by rw [htype]; rfl)
  unfold delay prepared
  dsimp only
  cases delayTime node with
  | error e => exact ⟨.refl _ _ _, rfl⟩
  | ok ms =>
    refine ⟨⟨rfl, rfl, .some ⟨rfl, rfl, .completed ?_⟩⟩, rfl⟩
    simp only [Veil.output, hsee]
    rfl

end

end Executor

/-- **The nodes of a heedless workflow** are executed alike on any two clocks, but for
what triggers and delays tell of them. -/
theorem Executors.builtin_veiled {w : Workflow} (hw : ∀ node ∈ w.nodes, node.type.steers = true)
    (hheedless : w.Heedless) (face face' : Face) (types : List NodeType) (config : EngineConfig)
    {node : Node} (hnode : node ∈ w.nodes) :
    Option.Rel (Executor.Veiled w.timeless node) (only types (builtin face config) node.type)
      (only types (builtin face' config) node.type) := by
  have hsteers := hw node hnode
  obtain ⟨hcondition, hbranch⟩ := hheedless node hnode
  unfold only
  split
  · cases htype : node.type with
    | trigger => exact .some (Executor.trigger_veiled hnode face face' htype)
    | condition => exact .some (hcondition htype).veiled
    | branch => exact .some (hbranch htype).veiled
    | delay => exact .some (Executor.delay_veiled hnode face face' htype)
    | _ => rw [htype] at hsteers; cases hsteers
  · exact .none

end Automation
