/-
Automation.Proofs.Engine.IsolationTheorems — the final records of runs of nodes
that only steer.

Of triggers, conditions, branches and delays nobody else takes any notice, so
runs of such nodes could be expected to end as they would alone. But triggers
and delays tell what the clock shows, and conditions and branches may look at
what they tell: `Schedule.runs_not_always_alone` is a run that goes one way on
the hour and another way later.

`Schedule.runs_end_as_alone` says what is true of all of them. The record of a
run and that of the same run alone are compared on any two clocks
(`Run.AsAlone`). If the clocks show the same texts, the one record is the
other one under another id (`Run.Twin`), as two drivers that are left alone go
alike (`Engine.holds_solo`). If the workflow is heedless of these texts, the
same holds behind the veil that hides them (`Schedule.execute_veiled`).
-/
import Automation.Proofs.Engine.ErasureTheorems
import Automation.Proofs.Engine.SolitudeTheorems

namespace Automation

open Automation.Json (Value)
open Automation.Time (Face)

/-- The engine with those of the executors that come with the library that are
for these types. -/
def Engine.builtin (types : List NodeType) (face : Face) (config : EngineConfig) : Engine where
  executors := .only types (.builtin face config)
  config

theorem Engine.builtin_keeps {face face' : Face} {later : Nat} {w : Workflow}
    (hface : ∀ n, face.instant (n + later) = face'.instant n) (types : List NodeType)
    (config : EngineConfig) (hw : ∀ node ∈ w.nodes, node.type.steers = true) :
    Engine.Keeps later w (.builtin types face config) (.builtin types face' config) where
  config := rfl
  executors node hnode := Executors.builtin_keeps hface types config (hw node hnode)

/-! ## Records on two clocks -/

/-- One record under two ids, on two clocks that stood at these readings when it
began. -/
def Run.Twin (now now' : Nat) (run run' : Run) : Prop :=
  ∃ base, run = (View.elsewhere run.id now).run base ∧ run' = (View.elsewhere run'.id now').run base

theorem Run.Twin.of_views {i i' : String} {now now' : Nat} {run run' base : Run}
    (h : run = (View.elsewhere i now).run base) (h' : run' = (View.elsewhere i' now').run base) :
    run.Twin now now' run' := by
  subst h h'
  exact ⟨base, rfl, rfl⟩

/-- The record of a run, and that of the same run alone. Each of them began when its
clock stood at a reading, which the clock shows by its face. If the same texts
have been shown since then, the two are one record under two ids and on two clocks;
and if nothing looks at the fields in which they are told, the two are that but for
these fields. -/
structure Run.AsAlone (w : Workflow) (face face' : Face) (now now' : Nat) (run run' : Run) :
    Prop where
  shown : (∀ n, face.instant (n + now) = face'.instant (n + now')) → run.Twin now now' run'
  heedless : w.Heedless → (w.timeless.run run).Twin now now' (w.timeless.run run')

/-- The face of a clock that stands at zero when the other one stands at `now`. -/
def Time.Face.since (face : Face) (now : Nat) : Face where
  instant n := face.instant (n + now)
  span := Value.ofInt

/-- **Both are compared with runs from the very beginning.** -/
theorem Run.AsAlone.of_views {types : List NodeType} {config : EngineConfig} {w : Workflow}
    (hw : ∀ node ∈ w.nodes, node.type.steers = true) {payload : Value} {options : RunOptions}
    {face face' : Face} {now now' : Nat} {i i' : String} {run run' base base' : Run}
    {s s' : Schedule}
    (hbase : Schedule.execute {} (.builtin types (face.since now) config) w payload options =
      (some base, s))
    (hbase' : Schedule.execute {} (.builtin types (face'.since now') config) w payload options =
      (some base', s'))
    (h : run = (View.elsewhere i now).run base) (h' : run' = (View.elsewhere i' now').run base') :
    run.AsAlone w face face' now now' run' where
  shown hface := by
    have hsame : face.since now = face'.since now' := by
      simp only [Face.since, hface]
    rw [hsame, hbase'] at hbase
    obtain rfl := Option.some.inj (Prod.mk.inj hbase).1
    exact .of_views h h'
  heedless hheedless := by
    have hexecutors : ∀ node ∈ w.nodes, Option.Rel (Executor.Veiled w.timeless node)
        ((Engine.builtin types (face.since now) config).executors node.type)
        ((Engine.builtin types (face'.since now') config).executors node.type) :=
      fun node hnode => Executors.builtin_veiled hw hheedless _ _ types config hnode
    have hveiled := Schedule.execute_veiled hexecutors rfl payload options {}
    have hseen : w.timeless.run base = w.timeless.run base' := by
      rw [hbase, hbase'] at hveiled
      cases hveiled with
      | some hseen => exact hseen
    have hrun : w.timeless.run run = (View.elsewhere i now).run (w.timeless.run base) := by
      rw [h, Veil.run_view]
    have hrun' : w.timeless.run run' = (View.elsewhere i' now').run (w.timeless.run base) := by
      rw [h', Veil.run_view, hseen]
    exact .of_views hrun hrun'

/-! ## Beside others, and alone -/

namespace Schedule

/-- **Runs end as if they were alone.** Whatever was asked of an engine before a
run of a workflow of triggers, conditions, branches and delays is put into the
background, and whatever is asked afterwards, except to cancel the run or to
forget it: the record that is stored in the end, and that is handed to whoever
waits for the run, is the one that executing the workflow on a fresh engine comes
to, under another id and on another clock. The same holds of the record of
a run that is executed in the midst of others.

Conditions and branches can look at the texts that the clocks show, as triggers
and delays tell them. So these have to be the same, as they are if the fresh
engine begins at the same instant; or else nothing that steers the run may look
at the fields in which they are told, and then the records are the same but for
these fields. -/
theorem runs_end_as_alone (types : List NodeType) (config : EngineConfig) (face face' : Face)
    {w : Workflow} (hw : ∀ node ∈ w.nodes, node.type.steers = true) (payload : Value)
    (options : RunOptions) {s : Schedule} {now : Nat} {registry : Registry} {services : Services}
    {series : Series} {before : List Order}
    (hs : s = obeyAll { world := { now, registry, services, series } } before)
    {alone : Schedule} {now' : Nat} {registry' : Registry} {services' : Services} {series' : Series}
    (halone : alone = { world := {
      now := now', registry := registry', services := services', series := series' } }) :
    ∃ run', (alone.execute (.builtin types face' config) w payload options).1 = some run' ∧
      (∃ run, (s.execute (.builtin types face config) w payload options).1 = some run ∧
        run.id = s.world.nextRun ∧ run.AsAlone w face face' s.world.now now' run') ∧
      ∃ s₁, s.spawn (.builtin types face config) w payload options = (some s.world.nextRun, s₁) ∧
        ∀ after, (∀ order ∈ after, order.Spares s.world.nextRun) → ∀ u, u = s₁.obeyAll after →
          (u.world.isDriven s.world.nextRun = false →
            ∃ run, u.world.store.get? s.world.nextRun = some run ∧
              run.id = s.world.nextRun ∧ run.AsAlone w face face' s.world.now now' run') ∧
          (u.world.isBehind s.world.nextRun = true →
            ∃ run, (u.join s.world.nextRun).1 = some run ∧
              run.id = s.world.nextRun ∧ run.AsAlone w face face' s.world.now now' run') := by
  have htidy : s.Tidy := hs ▸ (Tidy.of_empty rfl rfl).obeyAll before
  have htidy' : alone.Tidy := halone ▸ .of_empty rfl rfl
  have hzero : Tidy { world := {} } := .of_empty rfl rfl
  have hprompt : ∀ face : Face, (Engine.builtin types face config).executors.Prompt w :=
    fun face => Executors.builtin_prompt types config hw
  have hkeeps : ∀ (face : Face) now,
      Engine.Keeps now w (.builtin types face config) (.builtin types (face.since now) config) :=
    fun face now => Engine.builtin_keeps (fun _ => rfl) types config hw
  -- each is compared with a run on a clock that begins with zero and shows the same texts
  obtain ⟨base, s₀, hexecute₀, hbase⟩ :=
    hzero.execute_answers (hprompt (face.since s.world.now)) payload options
  obtain ⟨base', s₀', hexecute₀', hbase'⟩ :=
    hzero.execute_answers (hprompt (face'.since now')) payload options
  obtain ⟨run', t', hexecute', hcourse'⟩ := htidy'.execute_answers (hprompt face') payload options
  have hnow' : alone.world.now = ({} : World).now + now' := by
    subst halone
    exact (Nat.zero_add now').symm
  have hrun' := htidy'.execute_ahead (hkeeps face' now') hzero hnow' hcourse' hbase'
  have halike : ∀ run, run = (View.elsewhere s.world.nextRun s.world.now).run base →
      run.id = s.world.nextRun ∧ run.AsAlone w face face' s.world.now now' run' := by
    exact fun run hrun => ⟨hrun ▸ rfl, .of_views hw hexecute₀ hexecute₀' hrun hrun'⟩
  refine ⟨run', by rw [hexecute'], ?_, ?_⟩
  · obtain ⟨run, t, hexecute, hcourse⟩ := htidy.execute_answers (hprompt face) payload options
    have hrun := htidy.execute_ahead (hkeeps face s.world.now) hzero (Nat.zero_add _).symm hcourse
      hbase
    exact ⟨run, by rw [hexecute], halike run hrun⟩
  · obtain ⟨k, s₁, hspawn, htidy₁, hsheltered⟩ :=
      htidy.shelters (.builtin types face config) w payload options
    refine ⟨s₁, hspawn, ?_⟩
    rintro after hafter u rfl
    have hp₀ := Engine.wait?_drive (.builtin types face config) w
      (Engine.outset (.builtin types face config) w payload options s.world.now s.world.nextRun) k
    have hu := htidy₁.obeyAll after
    replace hsheltered := hsheltered.obeyAll hp₀ after htidy₁ hafter
    rw [← show ({} : World).now + s.world.now = s.world.now from Nat.zero_add _] at hsheltered hp₀
    constructor
    · intro hdriven
      obtain ⟨run, s', hcomes, hstored⟩ := hsheltered.stored hdriven
      obtain ⟨hrun, hget⟩ := hcomes.alone (hkeeps face s.world.now) hzero.world hbase
      refine ⟨run, ?_, halike run hrun⟩
      rw [← hget, Store.get?, hstored, Store.get?]
    · intro hbehind
      have hwithin := Engine.within_drive (e := .builtin types face config) (w := w)
        (Engine.outset (.builtin types face config) w payload options
          (({} : World).now + s.world.now) s.world.nextRun) k
      obtain ⟨run, s', hjoin, hcomes⟩ := hsheltered.joined hu hp₀ hwithin
        (fun wait hwait => hwait.2.2 (hprompt face)) hbehind
      obtain ⟨hrun, -⟩ := hcomes.alone (hkeeps face s.world.now) hzero.world hbase
      exact ⟨run, hjoin, halike run hrun⟩

end Schedule

/-- A clock whose text tells no times. -/
def Time.Face.masked : Face where
  instant _ := "<now>"
  span := Value.ofInt

/-- A workflow that goes one way for one kind of data, and another way for all
others, if it was fired. -/
def Workflow.forked : Workflow :=
  { (default : Workflow) with
    name := "forked"
    nodes := [
      ⟨"a", .trigger, none, .null, [], []⟩,
      ⟨"b", .condition, none, Condition.toJson
        ⟨[⟨"variables.node_a_output.triggered", .equals, .bool true⟩], .and⟩, [], []⟩,
      ⟨"c", .branch, none, .ofFields [
        ("field", .string "variables.kind"),
        ("cases", .array [.ofFields [("value", .string "x"), ("port", .string "left")]])], [], []⟩,
      ⟨"d", .trigger, none, .null, [], []⟩,
      ⟨"e", .trigger, none, .null, [], []⟩]
    connections := [⟨"1", "a", "b", none, none⟩, ⟨"2", "b", "c", some "true", none⟩,
      ⟨"3", "c", "d", some "left", none⟩, ⟨"4", "c", "e", some "default", none⟩] }

/-- It looks at what was fired and at the kind of data, and at no time. -/
theorem Workflow.forked_heedless : Workflow.forked.Heedless := by
  have hfired : Workflow.forked.timeless.Spares "variables.node_a_output.triggered".toList :=
    spares_of_trim "node_a_output.triggered".toList (by decide) (by decide)
  have hkind : Workflow.forked.timeless.Spares "variables.kind".toList :=
    spares_of_trim "kind".toList (by decide) (by decide)
  refine heedless_of_spares ?_ ?_
  · intro node hnode htype condition hread path hpath
    simp only [forked, List.mem_cons, List.not_mem_nil, or_false] at hnode
    rcases hnode with rfl | rfl | rfl | rfl | rfl <;> try cases htype
    obtain rfl := Except.ok.inj (hread.symm.trans rfl)
    obtain rfl := List.mem_singleton.mp hpath
    exact hfired
  · intro node hnode htype config hread path hpath
    simp only [forked, List.mem_cons, List.not_mem_nil, or_false] at hnode
    rcases hnode with rfl | rfl | rfl | rfl | rfl <;> try cases htype
    obtain rfl := Except.ok.inj (hread.symm.trans rfl)
    obtain rfl := List.mem_singleton.mp hpath
    exact hkind

/-- The engine with all executors under the usual settings. -/
def Engine.usual : Engine := .builtin NodeType.all .masked default

/-- The same engine with a clock that tells the time. -/
def Engine.dated : Engine := .builtin NodeType.all .utc default

/-- Data of a kind. -/
def Json.Value.ofKind (kind : String) : Value := .ofFields [("kind", .string kind)]

namespace Schedule

/-- Another run of the workflow has been set off, and time has passed. -/
def ofOther : Schedule :=
  obeyAll {} [.tell (.spawn .dated .forked (.ofKind "y") {}), .tell (.advance 300)]

/-- Meanwhile the other run is cancelled and forgotten. -/
def ofBoth : Schedule :=
  obeyAll (ofOther.spawn .dated .forked (.ofKind "x") {}).2
    [.tell (.cancel "exec-1"), .remove "exec-1", .tell (.get "exec-2"), .tell (.advance 1000)]

/-- The run goes the way it goes alone: at the same instant, and from the very
beginning. -/
theorem forked_alone : ∃ run run' run'', ofBoth.world.store.get? "exec-2" = some run ∧
    (execute { world := { now := 300 } } .dated .forked (.ofKind "x") {}).1 = some run' ∧
    run.Twin 300 300 run' ∧
    (execute {} .dated .forked (.ofKind "x") {}).1 = some run'' ∧
    (Workflow.forked.timeless.run run).Twin 300 0 (Workflow.forked.timeless.run run'') ∧
    run.status = .completed ∧ run.nodes.map (·.nodeId) = ["a", "b", "c", "d"] := by
  have hnext : ofOther.world.nextRun = "exec-2" := by decide +kernel
  have hnow : ofOther.world.now = 300 := by decide +kernel
  have hdriven : ofBoth.world.isDriven "exec-2" = false := by decide +kernel
  have hend : (ofBoth.world.store.get? "exec-2").map
      (fun run => (run.status, run.nodes.map (·.nodeId))) =
        some (.completed, ["a", "b", "c", "d"]) := by
    decide +kernel
  have hspares : ∀ order ∈ ([.tell (.cancel "exec-1"), .remove "exec-1", .tell (.get "exec-2"),
      .tell (.advance 1000)] : List Order), order.Spares "exec-2" := by
    simp [Order.Spares]
  have hof : ofOther = obeyAll { world := {
      now := 0, registry := {}, services := {}, series := { start := "exec-" } } }
      [.tell (.spawn .dated .forked (.ofKind "y") {}), .tell (.advance 300)] := by
    unfold ofOther
    rfl
  have halone : ∀ now, ({ world := { now } } : Schedule) = { world := {
      now, registry := {}, services := {}, series := { start := "exec-" } } } := fun _ => rfl
  have hends : ∀ now, ∃ run run', ofBoth.world.store.get? "exec-2" = some run ∧
      (execute { world := { now } } .dated .forked (.ofKind "x") {}).1 = some run' ∧
      run.AsAlone .forked .utc .utc 300 now run' := by
    intro now
    obtain ⟨run', hexecute, -, s₁, hspawn, hall⟩ :=
      runs_end_as_alone NodeType.all default .utc .utc (w := .forked) (by decide) (.ofKind "x") {}
        hof (halone now)
    rw [hnext] at hspawn
    rw [hnext, hnow] at hall
    have hboth : ofBoth = s₁.obeyAll [.tell (.cancel "exec-1"), .remove "exec-1",
        .tell (.get "exec-2"), .tell (.advance 1000)] := by
      unfold ofBoth Engine.dated
      rw [hspawn]
    obtain ⟨run, hget, -, hrun⟩ := (hall _ hspares ofBoth hboth).1 hdriven
    exact ⟨run, run', hget, hexecute, hrun⟩
  obtain ⟨run, run', hget, hexecute, hsame⟩ := hends 300
  obtain ⟨_, run'', hget', hexecute', hzero⟩ := hends 0
  obtain rfl := Option.some.inj (hget.symm.trans hget')
  rw [hget] at hend
  obtain ⟨hstatus, hnodes⟩ := Prod.mk.inj (Option.some.inj hend)
  exact ⟨run, run', run'', hget, hexecute, hsame.shown fun _ => rfl, hexecute',
    hzero.heedless Workflow.forked_heedless, hstatus, hnodes⟩

end Schedule

/-- A workflow that goes one way if it was fired on the hour, and another way if it
was not. -/
def Workflow.punctual : Workflow :=
  { (default : Workflow) with
    name := "punctual"
    nodes := [
      ⟨"a", .trigger, none, .null, [], []⟩,
      ⟨"b", .condition, none, Condition.toJson
        ⟨[⟨"variables.node_a_output.timestamp", .contains, .string "00:00Z"⟩], .and⟩, [], []⟩,
      ⟨"c", .trigger, none, .null, [], []⟩,
      ⟨"d", .trigger, none, .null, [], []⟩]
    connections := [⟨"1", "a", "b", none, none⟩, ⟨"2", "b", "c", some "true", none⟩,
      ⟨"3", "b", "d", some "false", none⟩] }

/-- Twins have come to the same nodes. -/
theorem Run.Twin.nodes_eq {v : Veil} {now now' : Nat} {run run' : Run}
    (h : (v.run run).Twin now now' (v.run run')) :
    run.nodes.map (·.nodeId) = run'.nodes.map (·.nodeId) := by
  have hveiled : ∀ r : Run, (v.run r).nodes.map (·.nodeId) = r.nodes.map (·.nodeId) := by
    intro r
    simp only [Veil.run, List.map_map]
    rfl
  have hviewed : ∀ (u : View) (r : Run), (u.run r).nodes.map (·.nodeId) = r.nodes.map (·.nodeId) := by
    intro u r
    simp only [View.run, List.map_map]
    rfl
  obtain ⟨base, h, h'⟩ := h
  rw [← hveiled, h, hviewed, ← hviewed, ← h', hveiled]

namespace Schedule

/-- **A run does not always end as if it were alone**, not even but for the texts of
the clock: it may look at them. -/
theorem runs_not_always_alone : ¬∀ (w : Workflow), (∀ node ∈ w.nodes, node.type.steers = true) →
    ∀ (payload : Value) (options : RunOptions) (before after : List Order) (s : Schedule),
      s = obeyAll {} before → (∀ order ∈ after, order.Spares s.world.nextRun) →
        ∀ u, u = (s.spawn .dated w payload options).2.obeyAll after →
          u.world.isDriven s.world.nextRun = false →
            ∃ run run', u.world.store.get? s.world.nextRun = some run ∧
              (execute {} .dated w payload options).1 = some run' ∧
              (w.timeless.run run).Twin s.world.now 0 (w.timeless.run run') := by
  intro h
  obtain ⟨run, run', hget, hexecute, htwin⟩ := h .punctual (by decide) .null {}
    [.tell (.advance 1000)] [.tell (.advance 1000)] _ rfl (by simp [Order.Spares]) _ rfl
    (by decide +kernel)
  have hlate : (((obeyAll {} [.tell (.advance 1000)]).spawn .dated .punctual .null {}).2.obeyAll
      [.tell (.advance 1000)] |>.world.store.get? "exec-1").map (fun run =>
        run.nodes.map (·.nodeId)) = some ["a", "b", "d"] := by
    decide +kernel
  have hearly : (execute {} .dated .punctual .null {}).1.map (fun run =>
      run.nodes.map (·.nodeId)) = some ["a", "b", "c"] := by
    decide +kernel
  have hnext : (obeyAll {} [.tell (.advance 1000)]).world.nextRun = "exec-1" := by decide +kernel
  rw [hnext] at hget
  rw [hget] at hlate
  rw [hexecute] at hearly
  have hroutes : ["a", "b", "d"] = ["a", "b", "c"] :=
    (Option.some.inj hlate).symm.trans (htwin.nodes_eq.trans (Option.some.inj hearly))
  exact absurd hroutes (by decide)

end Schedule

end Automation
