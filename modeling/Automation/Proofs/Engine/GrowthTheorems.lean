/-
Automation.Proofs.Engine.GrowthTheorems — the records that are stored for a
run, one after the other.

The driver has a record of its own and hands in copies of it, and what is
stored can be changed by others meanwhile, if they cancel the run. All the
same what is stored only grows: the driver's record shows the nodes and the
context of the stored one (`Run.Mirrors`), so each hand-in adds the record
of a node at the end or ends the one that is last.

`records_grow` says so for any two moments of a run that nobody removes
(`keepers`), with the dates that are stored at each moment, what is stored
while the driver waits, and what is stored when it has come to its end.
-/
import Automation.Proofs.Engine.StageTheorems
import Automation.Proofs.Run.DevelopmentTheorems
import Automation.Proofs.Engine.CancelTheorems

namespace Automation

open Process
open Automation.Json (Value)

/-! ## Company -/

/-- The others keep a run in the store; they may cancel it. -/
structure World.Keeping (id : String) (s s' : World) : Prop where
  known : ∀ r, s.store.get? id = some r → ∃ r', s'.store.get? id = some r' ∧
    (r' = r ∨ ∃ now, r' = r.cancel now)
  unknown : s.store.get? id = none → s'.store.get? id = none

theorem World.Keeping.rfl {id : String} {s : World} : s.Keeping id s :=
  ⟨fun r h => ⟨r, h, Or.inl (Eq.refl _)⟩, fun h => h⟩

theorem World.Keeping.trans {id : String} {s s₁ s₂ : World} (h : s.Keeping id s₁)
    (h' : s₁.Keeping id s₂) : s.Keeping id s₂ where
  known r hr := by
    obtain ⟨r₁, hr₁, hsame₁⟩ := h.known r hr
    obtain ⟨r₂, hr₂, hsame₂⟩ := h'.known r₁ hr₁
    refine ⟨r₂, hr₂, ?_⟩
    rcases hsame₁ with rfl | ⟨now, rfl⟩
    · exact hsame₂
    · rcases hsame₂ with rfl | ⟨now', rfl⟩
      · exact Or.inr ⟨now, Eq.refl _⟩
      · exact Or.inr ⟨now, Run.cancel_of_terminal (Run.cancel_terminal r now) now'⟩
  unknown hr := h'.unknown (h.unknown hr)

/-- The company that keeps a run. -/
def keepers (id : String) : Company World where
  signals := World.signals
  others _ := World.Keeping id
  others_refl _ _ := .rfl
  others_trans _ _ _ _ := .trans

/-! ## What is stored -/

/-- A stored record beside that of the driver. -/
structure Run.Mirrors (stored run : Run) : Prop where
  nodes : stored.nodes = run.nodes
  context : stored.context = run.context
  failedNodes : stored.metadata.failedNodes <+: run.metadata.failedNodes

theorem Run.Mirrors.rfl {run : Run} : run.Mirrors run :=
  ⟨Eq.refl _, Eq.refl _, List.prefix_refl _⟩

namespace World

/-- What is stored of a run now, if something is, is there later, and has
developed. -/
def Develops (id : String) (s s' : World) : Prop :=
  ∀ r, s.store.get? id = some r → ∃ r', s'.store.get? id = some r' ∧ r.Develops r'

/-- What is stored of a run has its dates. -/
def Dated (id : String) (s : World) : Prop :=
  ∀ r, s.store.get? id = some r → r.Dated

/-- What is stored of a run that its driver has in hand. -/
structure Tracks (s : World) (id : String) (run : Run) : Prop where
  isRun : run.id = id
  stored : ∃ r, s.store.get? id = some r ∧ r.Mirrors run ∧ r.Dated
  dated : run.Dated

variable {id : String} {s s' : World} {run run' : Run}

theorem Develops.rfl : s.Develops id s :=
  fun r h => ⟨r, h, .rfl⟩

theorem Develops.trans {s'' : World} (h : s.Develops id s') (h' : s'.Develops id s'') :
    s.Develops id s'' := by
  intro r hr
  obtain ⟨r', hr', hd⟩ := h r hr
  obtain ⟨r'', hr'', hd'⟩ := h' r' hr'
  exact ⟨r'', hr'', hd.trans hd'⟩

theorem Keeping.develops (h : s.Keeping id s') : s.Develops id s' := by
  intro r hr
  obtain ⟨r', hr', rfl | ⟨now, rfl⟩⟩ := h.known r hr
  · exact ⟨r', hr', .rfl⟩
  · refine ⟨_, hr', .of_same (r.cancel_nodes now) (r.cancel_context now) ?_⟩
    exact (r.cancel_metadata now).symm ▸ List.prefix_refl _

theorem Keeping.dated (h : s.Keeping id s') (hs : s.Dated id) : s'.Dated id := by
  intro r' hr'
  cases hr : s.store.get? id with
  | none => cases (h.unknown hr).symm.trans hr'
  | some r =>
    obtain ⟨r'', hr'', hsame⟩ := h.known r hr
    obtain rfl := Option.some.inj (hr''.symm.trans hr')
    rcases hsame with rfl | ⟨now, rfl⟩
    · exact hs _ hr
    · exact (hs r hr).cancel now

theorem Keeping.tracks (h : s.Keeping id s') (hs : s.Tracks id run) : s'.Tracks id run := by
  obtain ⟨r, hr, hmirrors, hdated⟩ := hs.stored
  obtain ⟨r', hr', rfl | ⟨now, rfl⟩⟩ := h.known r hr
  · exact ⟨hs.isRun, ⟨r', hr', hmirrors, hdated⟩, hs.dated⟩
  · refine ⟨hs.isRun, ⟨_, hr', ⟨?_, ?_, ?_⟩, hdated.cancel now⟩, hs.dated⟩
    · rw [Run.cancel_nodes, hmirrors.nodes]
    · rw [Run.cancel_context, hmirrors.context]
    · rw [Run.cancel_metadata]
      exact hmirrors.failedNodes

/-- The driver hands in a record that goes on where its last one ended. -/
theorem Tracks.save (h : s.Tracks id run) (hid : run'.id = run.id) (hdated : run'.Dated)
    (hdevelops : ∀ r : Run, r.Mirrors run → r.Develops run') :
    let saved := s.saveRun run'
    (s.Develops id saved.2 ∧ (s.Dated id → saved.2.Dated id)) ∧ saved.1.Echoes run' ∧
      saved.2.Tracks id saved.1 ∧ saved.2.store.get? id = some saved.1 := by
  intro saved
  obtain ⟨r, hr, hmirrors, hr'⟩ := h.stored
  obtain rfl : run'.id = id := hid.trans h.isRun
  have hfst : saved.1 = Store.merge r run' := Store.save_fst hr
  have hstored : saved.2.store.get? run'.id = some saved.1 := Store.get?_save s.store run'
  have he : saved.1.Echoes run' := Store.save_echoes s.store run'
  have hmerged : saved.1.Dated := hfst ▸ Store.merge_dated hr' hdated
  refine ⟨⟨?_, fun _ => ?_⟩, he, ⟨he.id, ⟨saved.1, hstored, .rfl, hmerged⟩, hmerged⟩, hstored⟩
  · intro r₁ hr₁
    rw [hr, Option.some.injEq] at hr₁
    exact ⟨saved.1, hstored, hr₁ ▸ (hdevelops r hmirrors).echoes he⟩
  · intro r₁ hr₁
    obtain rfl := Option.some.inj (hstored.symm.trans hr₁)
    exact hmerged

end World

/-! ## Stages -/

/-- The driver of a run is in the middle of the attempts at a node. -/
def Engine.Attempts {α : Type} (e : Engine) (w : Workflow) (id : String) (node : Node)
    (q : Process World α) : Prop :=
  ∃ token deadline run, run.id = id ∧
    Inside (Driver.tries ⟨e.executors, w, token, deadline⟩ node run) q

/-- The driver stores what develops, and waits only in the middle of the
attempts at a node, which is stored as running. -/
def Terms.growth (e : Engine) (w : Workflow) (id : String) : Terms World Empty where
  toCompany := keepers id
  entry _ _ := []
  own s s' := s.Develops id s' ∧ (s.Dated id → s'.Dated id)
  stop q _ s := ∀ wait, q.wait? = some wait → ∃ node r, e.Attempts w id node q ∧
    s.store.get? id = some r ∧ ∃ last, r.EndsWith node last
  entry_refl _ := rfl
  own_refl _ := ⟨.rfl, fun h => h⟩
  stop_bind {α β p} k log s hp h := by
    intro wait hw
    rw [wait?_bind hp] at hw
    obtain ⟨node, r, ⟨token, deadline, run, hid, hinside⟩, hr⟩ := h wait hw
    exact ⟨node, r, ⟨token, deadline, run, hid, hinside.bind k⟩, hr⟩

/-- The stages of a run that is tracked. -/
def Stages.growth (id : String) : Stages Empty where
  between run _ s := s.Tracks id run
  within node started run _ s := s.Tracks id run ∧ run.EndsWith node started
  called node started run _ _ s := s.Tracks id run ∧ run.EndsWith node started
  judged node started run _ _ s := s.Tracks id run ∧ run.EndsWith node started
  closed run _ s := run.id = id ∧ run.Dated ∧ s.store.get? id = some run

/-- References to tasks are only added. -/
theorem Context.tasks_prefix_absorb (context : Context) (node : Node) (verdict : Verdict) :
    context.tasks <+: (context.absorb node verdict).tasks := by
  cases verdict with
  | completed output => exact List.prefix_append _ _
  | failed error => exact List.prefix_refl _
  | cancelled => exact List.prefix_refl _
  | timedOut => exact List.prefix_refl _

section

variable {e : Engine} {w : Workflow} {id : String} {node : Node} {started : NodeRun} {run : Run}
  {s : World}

/-- Where the driver waits with a node in hand. -/
theorem Terms.growth_stop {α : Type} {q : Process World α} {d : Driver}
    (hexecutors : d.executors = e.executors) (hworkflow : d.workflow = w)
    (hinside : Inside (d.tries node run) q) (h : s.Tracks id run ∧ run.EndsWith node started) :
    (Terms.growth e w id).stop q [] s := by
  intro wait _
  obtain ⟨htracks, hends⟩ := h
  obtain ⟨r, hr, hmirrors, -⟩ := htracks.stored
  obtain ⟨executors, workflow, token, deadline⟩ := d
  dsimp only at hexecutors hworkflow
  subst hexecutors hworkflow
  refine ⟨node, r, ⟨token, deadline, run, htracks.isRun, hinside⟩, hr, started, ?_⟩
  exact ⟨hmirrors.nodes ▸ hends.nodes, hends.nodeId, hends.type, hends.status⟩

/-- One more node is started. -/
theorem World.Tracks.enter (h : s.Tracks id run) (node : Node) (now : Nat) :
    let started := NodeRun.start node run.context.vars now
    let saved := s.saveRun (run.addNode started)
    (s.Develops id saved.2 ∧ (s.Dated id → saved.2.Dated id)) ∧ saved.2.Tracks id saved.1 ∧
      saved.1.EndsWith node started := by
  intro started saved
  have hdated : (run.addNode started).Dated := by
    refine h.dated.withNodes rfl rfl rfl ?_
    intro record hrecord
    rcases List.mem_append.mp hrecord with hrecord | hrecord
    · exact h.dated.nodes record hrecord
    · rw [List.mem_singleton.mp hrecord]
      exact NodeRun.start_dated node _ now
  have hid : (run.addNode started).id = run.id := rfl
  obtain ⟨hown, he, htracks, -⟩ := h.save hid hdated fun r hr =>
    .of_appended (hr.nodes ▸ List.prefix_append _ _) (hr.context ▸ List.prefix_refl _) hr.failedNodes
  exact ⟨hown, htracks, ⟨run.nodes, he.nodes⟩, rfl, rfl, rfl⟩

/-- The last node has ended. -/
theorem World.Tracks.leave (h : s.Tracks id run) (hends : run.EndsWith node started)
    (settings : Settings) (now number : Nat) (logger : Logger) (verdict : Verdict) :
    let saved := s.saveRun <|
      Run.updateNode { run with context := run.context.absorb node verdict }
        (started.close settings node now number logger verdict)
    (s.Develops id saved.2 ∧ (s.Dated id → saved.2.Dated id)) ∧ saved.2.Tracks id saved.1 := by
  obtain ⟨before, hnodes⟩ := hends.nodes
  generalize hrun' : Run.updateNode { run with context := run.context.absorb node verdict }
    (started.close settings node now number logger verdict) = run'
  intro saved
  have hdated : run'.Dated := by
    subst hrun'
    refine h.dated.withNodes rfl rfl rfl ?_
    intro record hrecord
    rcases List.mem_append.mp hrecord with hrecord | hrecord
    · exact h.dated.nodes record (List.dropLast_subset _ hrecord)
    · rw [List.mem_singleton.mp hrecord]
      exact started.close_dated ..
  have hdevelops : ∀ r : Run, r.Mirrors run → r.Develops run' := by
    subst hrun'
    intro r hr
    refine .of_last (hr.nodes.trans hnodes) ?_
      (NodeRun.close_endsIn hends.status settings node now number logger verdict) ?_ hr.failedNodes
    · simp [Run.updateNode, hnodes]
    · rw [hr.context]
      exact run.context.tasks_prefix_absorb node verdict
  obtain ⟨hown, -, htracks, -⟩ := h.save (by rw [← hrun']; rfl) hdated hdevelops
  exact ⟨hown, htracks⟩

/-- A node that has failed is noted. -/
theorem World.Tracks.addFailure (h : s.Tracks id run) (nodeId : String) :
    s.Tracks id (run.addFailure nodeId) := by
  obtain ⟨r, hr, hmirrors, hdated⟩ := h.stored
  have hfailed := hmirrors.failedNodes.trans (List.prefix_append _ [nodeId])
  exact ⟨h.isRun, ⟨r, hr, ⟨hmirrors.nodes, hmirrors.context, hfailed⟩, hdated⟩,
    h.dated.withNodes rfl rfl rfl h.dated.nodes⟩

/-- The record is closed. -/
theorem World.Tracks.close (h : s.Tracks id run) (decision : Race.Decision) (now : Nat) :
    let saved := s.saveRun (decision.apply run now)
    (s.Develops id saved.2 ∧ (s.Dated id → saved.2.Dated id)) ∧ saved.1.id = id ∧
      saved.1.Dated ∧ saved.2.store.get? id = some saved.1 := by
  have hdevelops : ∀ r : Run, r.Mirrors run → r.Develops (decision.apply run now) := by
    intro r hr
    refine .of_same ?_ ?_ ?_
    · rw [decision.apply_nodes, hr.nodes]
    · rw [decision.apply_context, hr.context]
    · rw [decision.apply_metadata]
      exact hr.failedNodes
  obtain ⟨hown, -, htracks, hstored⟩ :=
    h.save (decision.apply_id run now) (h.dated.decide decision now) hdevelops
  exact ⟨hown, htracks.isRun, htracks.dated, hstored⟩

/-- A driver that others keep the run of has it tracked. -/
theorem Stages.growth_sound (e : Engine) (w : Workflow) (id : String) :
    (growth id).Sound e.executors w (.growth e w id) where
  between_others ho h := ho.tracks h
  within_others ho h := ⟨ho.tracks h.1, h.2⟩
  called_others ho h := ⟨ho.tracks h.1, h.2⟩
  judged_others ho h := ⟨ho.tracks h.1, h.2⟩
  between_stop hq _ := fun wait hw => by cases hq.symm.trans hw
  judged_stop hq _ := fun wait hw => by cases hq.symm.trans hw
  within_stop := Terms.growth_stop
  called_stop hexecutors hworkflow hinside _ := Terms.growth_stop hexecutors hworkflow hinside
  enter now _ h := h.enter _ now
  invoke _ h := ⟨⟨.rfl, fun hdated => hdated⟩, ⟨h.1.isRun, h.1.stored, h.1.dated⟩, h.2⟩
  refused _ _ h := h
  cutOff _ h := h
  dropped _ _ h := h
  ended _ h := h
  again h := h
  leave now number logger h := h.1.leave h.2 _ now number logger _
  failed nodeId h := h.addFailure nodeId
  close decision now h := h.close decision now

end

/-- A run is entered with the record that it is set off with. -/
theorem Stages.growth_opens (e : Engine) (w : Workflow) (payload : Value) (options : RunOptions)
    (s : World) : (growth s.nextRun).Opens (fun _ s' => s'.store.get? s.nextRun = none)
      (e.opening w payload options s) (.growth e w s.nextRun) where
  before_others ho h := ho.unknown h
  before_stop hq _ := fun wait hw => by cases hq.symm.trans hw
  register {log s'} h := by
    intro added
    have hdated : (e.opening w payload options s).Dated := .start ..
    have hstored : added.2.store.get? s.nextRun = some (e.opening w payload options s) :=
      Store.get?_eq (Store.entry?_register s'.store (e.opening w payload options s))
    refine ⟨⟨?_, fun _ => ?_⟩, rfl, ⟨_, hstored, .rfl, hdated⟩, hdated⟩
    · intro r hr
      cases h.symm.trans hr
    · intro r hr
      obtain rfl := Option.some.inj (hstored.symm.trans hr)
      exact hdated

/-! ## Moments -/

/-- What holds of a run at a moment: of what is stored now, of what the driver
waits for, of what it returns, and of everything that is stored later. -/
structure Engine.Chronicles (e : Engine) (w : Workflow) (id : String) (q : Process World Run)
    (t : World) : Prop where
  dated : t.Dated id
  waiting : ∀ wait, q.wait? = some wait → ∃ node r, e.Attempts w id node q ∧
    t.store.get? id = some r ∧ ∃ last, r.EndsWith node last
  returned : ∀ run, q = done run → t.store.get? id = some run
  later : ∀ q' t', Course (keepers id) q t q' t' → t.Develops id t'

section

variable {e : Engine} {w : Workflow} {id : String} {α : Type} {p q : Process World α}
  {post : α → List Empty → World → Prop} {log : List Empty} {s t : World}

/-- What is stored develops on the whole way. -/
theorem Process.Course.develops (h : Course (keepers id) p s q t)
    (hp : p.Assures (.growth e w id) post log s) : s.Develops id t := by
  obtain ⟨_, htrace⟩ := h.exists_trace (Terms.growth e w id).entry
  refine Trace.invariant (fun _ t => s.Develops id t) ?_ ?_ htrace hp .rfl
  · exact fun _ _ _ hown hs => hs.trans hown.1
  · exact fun _ _ _ _ ho hs => hs.trans (World.Keeping.develops ho)

/-- What is stored has its dates on the whole way. -/
theorem Process.Course.dated (h : Course (keepers id) p s q t)
    (hp : p.Assures (.growth e w id) post log s) (hs : s.Dated id) : t.Dated id := by
  obtain ⟨_, htrace⟩ := h.exists_trace (Terms.growth e w id).entry
  refine Trace.invariant (fun _ t => t.Dated id) ?_ ?_ htrace hp hs
  · exact fun _ _ _ hown hs => hown.2 hs
  · exact fun _ _ _ _ ho hs => World.Keeping.dated ho hs

/-- A moment of a run whose driver keeps to its terms. -/
theorem Engine.chronicles_of_course {p q : Process World Run}
    (hp : p.Assures (.growth e w id) (Stages.growth id).closed log s) (hs : s.Dated id)
    (h : Course (keepers id) p s q t) : e.Chronicles w id q t := by
  obtain ⟨_, htrace⟩ := h.exists_trace (Terms.growth e w id).entry
  have hq := htrace.assures hp
  refine ⟨h.dated hp hs, ?_, ?_, fun q' t' h' => h'.develops hq⟩
  · intro wait hw
    exact hq.stop (atStop_of_wait? (by rw [hw]; rfl)) wait hw
  · rintro run rfl
    exact hq.2.2

/-- While a run has been set off and nobody drives it. -/
theorem World.Keeping.handedOn {s' : World} {run : Run} (h : s.Keeping id s')
    (hs : (Stages.growth id).handedOn run log s) : (Stages.growth id).handedOn run log s' := by
  refine ⟨fun hend => ?_, fun hlive => h.tracks (hs.2 hlive)⟩
  obtain ⟨hid, hdated, hstored⟩ := hs.1 hend
  obtain ⟨r', hr', hsame⟩ := h.known run hstored
  refine ⟨hid, hdated, hr'.trans (congrArg some ?_)⟩
  rcases hsame with rfl | ⟨now, rfl⟩
  · rfl
  · exact Run.cancel_of_terminal hend now

end

/-- **The records of a run.** A run is executed at once, or it is set off and
driven at any time later, and nobody removes it from the store. At every
moment, what is stored has its dates; whenever the driver waits, it is in the
middle of the attempts at a node, and what is stored ends in a running record
for that node; and when the driver returns, what is stored is what it returns.
Whatever is stored at one moment develops into what is stored at any later
moment. -/
theorem records_grow (e : Engine) (w : Workflow) (payload : Value) (options : RunOptions)
    {s : World} (hnew : s.store.get? s.nextRun = none) :
    (∀ q t, Course (keepers s.nextRun) (e.execute w payload options) s q t →
      e.Chronicles w s.nextRun q t) ∧
    ∀ q₀ t₀, Course (keepers s.nextRun) (e.prepare w payload options) s q₀ t₀ →
      t₀.Dated s.nextRun ∧
      ∀ run token s₁, Course (keepers s.nextRun) q₀ t₀ (done (run, token)) s₁ →
      ∀ s₂, s₁.Keeping s.nextRun s₂ →
      ∀ q t, Course (keepers s.nextRun) (e.drive w run token) s₂ q t →
        t₀.Develops s.nextRun t ∧ e.Chronicles w s.nextRun q t := by
  have hsound := Stages.growth_sound e w s.nextRun
  have hopens := Stages.growth_opens e w payload options s
  have hdated : s.Dated s.nextRun := by
    intro r hr
    cases hnew.symm.trans hr
  constructor
  · intro q t h
    have hexecute : (e.execute w payload options).Assures (.growth e w s.nextRun)
        (Stages.growth s.nextRun).closed [] s := Engine.assures_execute hsound hopens hnew
    exact Engine.chronicles_of_course hexecute hdated h
  · intro q₀ t₀ h₀
    have hprepare : (e.prepare w payload options).Assures (.growth e w s.nextRun)
        (fun r => (Stages.growth s.nextRun).handedOn r.1) [] s :=
      Engine.assures_prepare hsound hopens hnew
    obtain ⟨_, htrace₀⟩ := h₀.exists_trace (Terms.growth e w s.nextRun).entry
    have hq₀ := htrace₀.assures hprepare
    have hdated₀ := h₀.dated hprepare hdated
    refine ⟨hdated₀, ?_⟩
    intro run token s₁ h₁ s₂ hbetween q t h
    obtain ⟨_, htrace₁⟩ := h₁.exists_trace (Terms.growth e w s.nextRun).entry
    have hs₁ := htrace₁.assures hq₀
    have hdrive := Engine.assures_drive hsound token (hbetween.handedOn hs₁)
    have hdated₂ := hbetween.dated (h₁.dated hq₀ hdated₀)
    refine ⟨?_, Engine.chronicles_of_course hdrive hdated₂ h⟩
    exact ((h₁.develops hq₀).trans hbetween.develops).trans (h.develops hdrive)

/-- A node that takes a second: it is stored as running while it is waited for,
and as completed in the end. -/
theorem lone_grows : ∃ q t run t',
    Course (keepers "exec-1") (Engine.slow.execute .lone .null {}) {} q t ∧
      q.wait? = some ⟨some 0, none, .instant 1000⟩ ∧
      (∃ node r, t.store.get? "exec-1" = some r ∧ ∃ last, r.EndsWith node last) ∧
      Course (keepers "exec-1") q t (done run) t' ∧ t.Develops "exec-1" t' ∧
      t'.store.get? "exec-1" = some run ∧ run.nodes.map (·.status) = [.completed] := by
  let first := (Engine.slow.execute .lone .null {}).turn World.signals 128 .free {}
  let later := { first.state with now := 1000 }
  have hfirst : Course (keepers "exec-1") (Engine.slow.execute .lone .null {}) {}
      first.outcome.rest first.state := Course.turn 128 .free .start
  have hlater : Course (keepers "exec-1") first.outcome.rest first.state first.outcome.rest later :=
    Course.start.others trivial ⟨fun r hr => ⟨r, hr, Or.inl rfl⟩, fun h => h⟩
  have hsecond := hlater.turn 128 .free
  have hgrow := (records_grow Engine.slow .lone .null {} (s := {}) rfl).1
  have hmoment := hgrow _ _ hfirst
  obtain ⟨node, r, -, hr, hlast⟩ := hmoment.waiting ⟨some 0, none, .instant 1000⟩ rfl
  have hdevelops := hmoment.later _ _ hsecond
  have hstored := ((hgrow _ _ (hfirst.append hsecond)).returned) _ rfl
  exact ⟨_, _, _, _, hfirst, rfl, ⟨node, r, hr, hlast⟩, hsecond, hdevelops, hstored, rfl⟩

end Automation
