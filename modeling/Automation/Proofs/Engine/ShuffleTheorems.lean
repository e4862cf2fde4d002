/-
Automation.Proofs.Engine.ShuffleTheorems — workflows with the clauses of their
conditions in another order.

If the engine is asked twice for the same, but once with workflows in which the
clauses of conditions are shuffled (`Order.Shuffled`), the two schedules stand
alike after each order (`Schedule.Parallel`): at every moment the same runs have
come to the same nodes. So nothing differs in the end but the data of the
condition nodes, and the words in which it is said that conditions fail.

The main theorem (`clauses_in_any_order`) puts this together with what a condition
comes to at all (`Context.satisfies_fails_iff`, `Context.satisfies_eq_ok_iff`).
-/
import Automation.Proofs.Engine.ErasureTheorems
import Automation.Proofs.Engine.IsolationTheorems
import Automation.Proofs.Engine.ParallelTheorems

namespace Automation

open Process
open Automation.Json (Value)

/-- The same workflow, but for the order of the clauses of its conditions. -/
def Workflow.Shuffled (w w' : Workflow) : Prop :=
  w.Varies Node.Shuffled w'

/-- The same order, but for the order of the clauses in the workflow that is to
be run. -/
inductive Order.Shuffled : Order → Order → Prop
  | same (order : Order) : Shuffled order order
  | execute {e : Engine} {w w' : Workflow} (he : e.executors.Evaluates) (hw : w.Shuffled w')
      (payload : Value) (options : RunOptions) :
      Shuffled (.tell (.execute e w payload options)) (.tell (.execute e w' payload options))
  | spawn {e : Engine} {w w' : Workflow} (he : e.executors.Evaluates) (hw : w.Shuffled w')
      (payload : Value) (options : RunOptions) :
      Shuffled (.tell (.spawn e w payload options)) (.tell (.spawn e w' payload options))

/-! ## Workflows that are executed alike -/

theorem Workflow.varies_self (executors : Executors) (w : Workflow) :
    w.Varies executors.Equates w :=
  ⟨List.forall₂_same.mpr fun node _ => .refl executors node, rfl⟩

theorem Workflow.Shuffled.varies {executors : Executors} (he : executors.Evaluates)
    {w w' : Workflow} (h : w.Shuffled w') : w.Varies executors.Equates w' :=
  ⟨h.nodes.imp fun _ _ hnode => hnode.equates he, h.others⟩

/-! ## Requests -/

namespace Engine

variable (e : Engine) {w w' : Workflow} (hw : w.Varies e.executors.Equates w') (payload : Value)
  (options : RunOptions)

include hw

theorem stops_eq : Engine.stops w' = Engine.stops w := by
  unfold Engine.stops
  rw [hw.settings_eq, hw.nodes.length_eq]

theorem first_eq (now : Nat) (id : String) :
    e.first w' payload options now id = e.first w payload options now id := by
  rw [hw.others]
  rfl

/-- A run is set off alike. -/
theorem alike_prepare_gist : (e.prepare w payload options).Alike .gist
    (fun a b => a.1.Similar b.1 ∧ a.2 = b.2) (e.prepare w' payload options) := by
  have hvalid : w'.isValid = w.isValid :=
    congrArg List.isEmpty (hw.issues_eq fun _ _ hnode => hnode.id)
  refine Engine.alike_prepare_erased Run.gist_recasts ?_ hvalid.symm fun r now => ?_
  · exact fun now id => (e.first_eq hw payload options now id).symm
  · rw [Run.gist_fail, Run.gist_fail]

theorem alike_execute_gist : (e.execute w payload options).Alike .gist Run.Similar
    (e.execute w' payload options) := by
  refine (e.alike_prepare_gist hw payload options).bind ?_
  rintro ⟨r, token⟩ ⟨r', _⟩ ⟨hr, rfl⟩
  exact e.alike_drive_gist hw hr token

end Engine

/-! ## Schedules -/

/-- Two schedules that stand alike, up to words. -/
abbrev Schedule.Parallel : Schedule → Schedule → Prop :=
  Schedule.Alike .gist fun _ => Run.Similar

/-- Either both have a result, and these are of one gist, or none. -/
theorem Run.map_gist_eq {r? r'? : Option Run} (h : Option.Rel Run.Similar r? r'?) :
    r?.map Run.gist = r'?.map Run.gist := by
  cases h with
  | none => rfl
  | some hr => exact congrArg some hr

/-- Worlds of one gist stay so. -/
theorem Likeness.gist_worldly : Likeness.gist.Worldly fun _ => Run.Similar :=
  Likeness.erased_worldly Run.gist

namespace Schedule

variable {s s' : Schedule} (h : s.Parallel s')

include h

theorem Parallel.serve {α β : Type} {answers : α → β → Prop} (stops : Nat) {p : Process World α}
    {p' : Process World β} (hp : p.Alike .gist answers p') :
    Option.Rel answers (s.serve stops p).1 (s'.serve stops p').1 ∧
      (s.serve stops p).2.Parallel (s'.serve stops p').2 :=
  Schedule.Alike.serve Likeness.gist_worldly (fun _ h => h) h stops hp

/-- What changes the world as it would change its gist. -/
theorem Parallel.serve_step {α γ : Type} (stops : Nat) {f : World → α × World} {p : α → γ}
    (k : World → γ × World) (hf : ∀ w, k w.gist = (p (f w).1, (f w).2.gist)) :
    (s.serve stops (stepLocked f)).2.Parallel (s'.serve stops (stepLocked f)).2 := by
  have hstep : (stepLocked f).Alike .gist (fun a b => p a = p b) (stepLocked f) :=
    alike_stepLocked fun _ _ hs => World.step_of_recast hs k hf hf
  exact (h.serve stops hstep).2

/-- Whoever waits for a run gets records of one gist. -/
theorem Parallel.join (id : String) : (s.join id).1.map Run.gist = (s'.join id).1.map Run.gist ∧
    (s.join id).2.Parallel (s'.join id).2 := by
  have hfetch : (pause { due := .run id } >>= fun _ => step (·.fetchRun id)).Alike .gist
      (fun a b => a.map Run.gist = b.map Run.gist)
      (pause { due := .run id } >>= fun _ => step (·.fetchRun id)) := by
    refine Alike.bind (fun _ _ _ => alike_step fun s t hs => ?_) (alike_pause rfl)
    exact World.step_of_recast hs (·.fetchRun id) (fun _ => World.fetchRun_recast)
      fun _ => World.fetchRun_recast
  obtain ⟨hanswers, hafter⟩ := h.serve 1 hfetch
  rw [join_eq, join_eq, World.isBehind_of_recast h.world]
  split
  · refine ⟨?_, hafter⟩
    generalize (s.serve 1 _).1 = answer, (s'.serve 1 _).1 = answer' at hanswers
    cases hanswers with
    | none => rfl
    | some hr => exact hr
  · exact ⟨rfl, h⟩

section

variable (e : Engine) {w w' : Workflow} (hw : w.Varies e.executors.Equates w') (payload : Value)
  (options : RunOptions)

include hw

theorem Parallel.execute : Option.Rel Run.Similar (s.execute e w payload options).1
      (s'.execute e w' payload options).1 ∧
    (s.execute e w payload options).2.Parallel (s'.execute e w' payload options).2 := by
  unfold Schedule.execute
  rw [e.stops_eq hw]
  exact h.serve _ (e.alike_execute_gist hw payload options)

theorem Parallel.spawn :
    (s.spawn e w payload options).1 = (s'.spawn e w' payload options).1 ∧
    (s.spawn e w payload options).2.Parallel (s'.spawn e w' payload options).2 := by
  obtain ⟨hanswers, hafter⟩ := h.serve 2 (e.alike_prepare_gist hw payload options)
  unfold Schedule.spawn
  generalize s.serve 2 (e.prepare w payload options) = result,
    s'.serve 2 (e.prepare w' payload options) = result' at hanswers hafter
  obtain ⟨a?, t⟩ := result
  obtain ⟨b?, t'⟩ := result'
  cases hanswers with
  | none => exact ⟨rfl, hafter⟩
  | @some a b hab =>
    obtain ⟨r, token⟩ := a
    obtain ⟨r', _⟩ := b
    obtain ⟨hr, rfl⟩ := hab
    have hid : r.id = r'.id := Run.id_of_gist hr
    have hleft : (t.world.leaveRun r.id).gist = (t'.world.leaveRun r'.id).gist := by
      have hleave : ∀ w : World, w.gist.leaveRun r.id = (w.leaveRun r.id).gist :=
        fun _ => World.leaveRun_recast
      rw [← hid, ← hleave, ← hleave, hafter.world]
    refine ⟨congrArg some hid, Schedule.Alike.addJob hafter hleft ⟨hid, ?_, rfl, ?_⟩⟩
    · exact (Engine.stops_eq e hw).symm
    · exact e.alike_drive_gist hw hr token

end

/-- Every order is carried out alike. -/
theorem Parallel.obey {order order' : Order} (horder : order.Shuffled order') :
    (s.obey order).Parallel (s'.obey order') := by
  cases horder with
  | execute he hw payload options => exact (h.execute _ (hw.varies he) payload options).2
  | spawn he hw payload options => exact (h.spawn _ (hw.varies he) payload options).2
  | same =>
    cases order with
    | remove id =>
      exact h.serve_step 1 (·.removeRun id) fun _ => World.removeRun_recast Run.gist_recasts
    | tell command =>
      cases command with
      | execute e w payload options => exact (h.execute e (w.varies_self _) payload options).2
      | spawn e w payload options => exact (h.spawn e (w.varies_self _) payload options).2
      | join id => exact (h.join id).2
      | cancel id =>
        exact h.serve_step (p := fun cancelled => cancelled) 1 (·.cancelRun id) fun _ =>
          World.cancelRun_recast Run.gist_recasts
      | advance ms =>
        have hpause := (h.serve 1 (alike_pause (Eq.refl
          ({ due := .instant (s'.world.now + Time.slept ms) } : Wait)))).2
        show (s.advance ms).Parallel (s'.advance ms)
        unfold Schedule.advance
        rw [World.now_of_recast h.world]
        exact hpause
      | get id =>
        have hget : (readLocked fun w => w.store.get? id).Alike .gist (fun _ _ => True)
            (readLocked fun w => w.store.get? id) :=
          alike_readLocked (fun _ _ h => h) fun _ _ _ => trivial
        exact (h.serve 1 hget).2

omit h in
/-- All orders are carried out alike. -/
theorem Parallel.obeyAll {orders orders' : List Order}
    (horders : List.Forall₂ Order.Shuffled orders orders') : ∀ {s s' : Schedule},
    s.Parallel s' → (s.obeyAll orders).Parallel (s'.obeyAll orders') := by
  induction horders with
  | nil => exact fun h => h
  | cons horder _ ih => exact fun h => ih (h.obey horder)

/-- Two schedules correspond if they hold worlds of one gist, and if whoever
asks gets the same from both, up to words: who waits for a run, and who sets a
run off, in the second one with the clauses of conditions in another order. -/
structure Corresponds (s s' : Schedule) : Prop where
  world : s.world.gist = s'.world.gist
  joined : ∀ id, (s.join id).1.map Run.gist = (s'.join id).1.map Run.gist
  executed : ∀ {e : Engine} {w w' : Workflow}, e.executors.Evaluates → w.Shuffled w' →
    ∀ payload options, (s.execute e w payload options).1.map Run.gist =
      (s'.execute e w' payload options).1.map Run.gist
  spawned : ∀ {e : Engine} {w w' : Workflow}, e.executors.Evaluates → w.Shuffled w' →
    ∀ payload options, (s.spawn e w payload options).1 = (s'.spawn e w' payload options).1

theorem Parallel.corresponds : s.Corresponds s' where
  world := h.world
  joined id := (h.join id).1
  executed {e _ _} he hw payload options :=
    Run.map_gist_eq (h.execute e (hw.varies he) payload options).1
  spawned {e _ _} he hw payload options := (h.spawn e (hw.varies he) payload options).1

end Schedule

/-! ## The main theorem -/

/-- **Conditions look at all clauses, in any order.**

A condition fails exactly if one of its clauses has a path that begins at no
root, whatever the others come to; else it joins the outcomes of all of them.
So with the same clauses in another order, and as often as one likes, it fails
as well or comes to the same.

A condition node of which the clauses stand in another order does the same, or
fails in both orders; the run goes on by the same connections; and whatever is
ordered, the engine leaves the same world, but for these clauses themselves and
the words in which errors are told. -/
theorem clauses_in_any_order :
    (∀ (c : Context) (condition : Condition),
      ((∃ e, c.satisfies condition = .error e) ↔ ∃ clause ∈ condition.clauses, clause.Strays) ∧
      (∀ met, c.satisfies condition = .ok met ↔
        (∀ clause ∈ condition.clauses, ∃ outcome, c.decide clause = .ok outcome) ∧
          (met = true ↔
            condition.logic.Holds (fun clause => c.decide clause = .ok true) condition.clauses)) ∧
      ∀ condition' : Condition, condition'.logic = condition.logic →
        (∀ clause, clause ∈ condition'.clauses ↔ clause ∈ condition.clauses) →
        Concur Eq (c.satisfies condition) (c.satisfies condition')) ∧
    (∀ (node : Node) (data : Value), Condition.Written node.data data → ∀ around services,
      Attempt.Matches (Executor.condition node around services).1
        (Executor.condition { node with data } around services).1) ∧
    (∀ (d : Driver) (w : Workflow), d.executors.Evaluates → d.workflow.Shuffled w →
      ∀ (id : String) (r r' : Run), r.Similar r' →
        (d.visit (.ofWorkflow d.workflow) id r).Alike .gist (Onward.Alike Run.Similar Halt.Alike)
          (Driver.visit { d with workflow := w } (.ofWorkflow w) id r')) ∧
    ∀ (now : Nat) (registry : Registry) (services : Services) (series : Series)
      (orders orders' : List Order), List.Forall₂ Order.Shuffled orders orders' →
      (Schedule.obeyAll { world := { now, registry, services, series } } orders).Corresponds
        (Schedule.obeyAll { world := { now, registry, services, series } } orders') := by
  refine ⟨fun c condition => ⟨?_, fun met => ?_, fun condition' => ?_⟩, ?_, ?_, ?_⟩
  · exact Context.satisfies_fails_iff
  · exact Context.satisfies_eq_ok_iff
  · exact Context.satisfies_concur
  · exact fun _ _ hdata around services => (Executor.condition_matches hdata around services).1
  · intro d w he hw id r r' hr
    have hvaries := hw.varies he
    exact Driver.alike_visit_gist hvaries.settings_eq (hvaries.graph fun _ _ h => h.id) id hr
  · intro now registry services series orders orders' horders
    have hempty : Schedule.Parallel { world := { now, registry, services, series } }
        { world := { now, registry, services, series } } := ⟨rfl, rfl, rfl, .nil, .nil, .nil, .nil⟩
    exact (hempty.obeyAll horders).corresponds

/-- Nobody is the user. -/
def Clause.nobody : Clause := ⟨"user", .equals, .null⟩

/-- Somebody is the user. -/
def Clause.somebody : Clause := ⟨"user", .notEquals, .null⟩

/-- Nothing is known of what the user is compared with. -/
def Clause.astray : Clause := ⟨"user", .equals, .string "\x7b\x7bnowhere\x7d\x7d"⟩

/-- A node that asks for all of the clauses. -/
def Node.choice (clauses : List Clause) : Node :=
  ⟨"a", .condition, none, .object [("conditions", .array (clauses.map Clause.toJson))], [], []⟩

/-- A workflow that goes one way if all of the clauses are met, and else another. -/
def Workflow.choosing (clauses : List Clause) : Workflow :=
  { (default : Workflow) with
    name := "choosing"
    nodes := [.choice clauses, ⟨"b", .trigger, none, .null, [], []⟩,
      ⟨"c", .trigger, none, .null, [], []⟩]
    connections := [⟨"1", "a", "b", some "true", none⟩, ⟨"2", "a", "c", some "false", none⟩] }

/-- Somebody drives a run of this workflow. -/
def Driver.choosing (clauses : List Clause) : Driver :=
  { executors := Engine.usual.executors
    workflow := .choosing clauses
    token := 0
    deadline := none }

/-- A run of this workflow has been set off. -/
def Schedule.choosing (clauses : List Clause) : Schedule :=
  obeyAll {} [.tell (.spawn .usual (.choosing clauses) .null {})]

/-- An error is found behind a clause that is met. A clause that is not met leads
the same way from either place, and one that strays leads nowhere from either
place. -/
theorem clauses_in_any_order_choosing :
    (∃ e, (default : Context).satisfies ⟨[.nobody, .astray], .or⟩ = .error e) ∧
    (default : Context).satisfies ⟨[.nobody, .somebody], .or⟩ = .ok true ∧
    Concur Eq ((default : Context).satisfies ⟨[.nobody, .somebody], .or⟩)
      ((default : Context).satisfies ⟨[.somebody, .nobody, .somebody], .or⟩) ∧
    (∀ around services, Attempt.Matches
      (Executor.condition (.choice [.nobody, .somebody]) around services).1
      (Executor.condition (.choice [.somebody, .nobody]) around services).1) ∧
    (∀ r : Run, ((Driver.choosing [.nobody, .somebody]).visit
        (.ofWorkflow (.choosing [.nobody, .somebody])) "a" r).Alike .gist
      (Onward.Alike Run.Similar Halt.Alike)
      ((Driver.choosing [.somebody, .nobody]).visit
        (.ofWorkflow (.choosing [.somebody, .nobody])) "a" r)) ∧
    ∃ s s', s = Schedule.choosing [.nobody, .somebody] ∧
      s' = Schedule.choosing [.somebody, .nobody] ∧
      (s.join "exec-1").1.map Run.gist = (s'.join "exec-1").1.map Run.gist ∧
      (s.join "exec-1").1.map (fun run => (run.status, run.nodes.map (·.nodeId))) =
        some (.completed, ["a", "c"]) ∧
      (s.execute .usual (.choosing [.nobody, .astray]) .null {}).1.map Run.gist =
        (s'.execute .usual (.choosing [.astray, .nobody]) .null {}).1.map Run.gist ∧
      (s.execute .usual (.choosing [.nobody, .astray]) .null {}).1.map
        (fun run => (run.status, run.nodes.map (·.nodeId))) = some (.failed, ["a"]) := by
  have hevaluates : Engine.usual.executors.Evaluates := Executors.evaluates_builtin _ _ _
  have hswap : ∀ a b : Clause, (Workflow.choosing [a, b]).Shuffled (.choosing [b, a]) := fun a b =>
    ⟨.cons (.clauses rfl (.object (.swap _ _ _) [] []))
      (List.forall₂_same.mpr fun node _ => .same node), rfl⟩
  have hstrays : Clause.astray.Strays :=
    .inr ⟨_, List.mem_singleton_self _, "nowhere".toList, Template.mem_asks_iff.mp (by decide),
      Path.isSome_unknownRoot?.mp (by decide)⟩
  have hnobody : (default : Context).decide .nobody = .ok true := by decide
  have hsomebody : (default : Context).decide .somebody = .ok false := by decide
  obtain ⟨hconditions, hattempts, hvisits, hruns⟩ := clauses_in_any_order
  obtain ⟨hfails, -, -⟩ := hconditions default ⟨[.nobody, .astray], .or⟩
  obtain ⟨-, hmet, hconcur⟩ := hconditions default ⟨[.nobody, .somebody], .or⟩
  have hcorresponds : (Schedule.choosing [.nobody, .somebody]).Corresponds
      (.choosing [.somebody, .nobody]) :=
    hruns 0 {} {} { start := "exec-" } _ _
      (.cons (.spawn hevaluates (hswap .nobody .somebody) .null {}) .nil)
  have hexecuted := hcorresponds.executed (e := .usual) hevaluates (hswap .nobody .astray) .null {}
  refine ⟨hfails.mpr ⟨.astray, by simp, hstrays⟩, ?_, hconcur _ rfl ?_, ?_, ?_, _, _, rfl, rfl,
    hcorresponds.joined "exec-1", ?_, hexecuted, ?_⟩
  · refine (hmet true).mpr ⟨?_, fun _ => ⟨.nobody, by simp, hnobody⟩, fun _ => rfl⟩
    simp [hnobody, hsomebody]
  · simp [or_comm]
  · exact hattempts (.choice _) _ (.object (.swap _ _ _) [] [])
  · exact fun r => hvisits (Driver.choosing _) _ hevaluates (hswap .nobody .somebody) "a" r r rfl
  · decide +kernel
  · decide +kernel

end Automation
