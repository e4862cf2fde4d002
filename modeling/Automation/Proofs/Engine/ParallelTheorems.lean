/-
Automation.Proofs.Engine.ParallelTheorems — two drivers in parallel.

Two drivers take a run each through workflows whose nodes correspond, each in a
world of its own, in which it is the same time and everything is known up to
words (`Likeness.gist`). If the executors do the same at corresponding nodes,
unless they fail at both (`Executors.Equates`), then the drivers go alike: they
attempt the same nodes at the same times and as often, follow the same
connections, and leave records of one gist (`Engine.alike_drive_gist`).
-/
import Automation.Proofs.Engine.LikenessTheorems
import Automation.Proofs.Node.ShuffleTheorems
import Automation.Proofs.Run.GistTheorems
import Automation.Proofs.Workflow.VariationTheorems

namespace Automation

open Process

/-- Worlds of one gist are alike. -/
def Likeness.gist : Likeness World World where
  states s t := s.gist = t.gist
  steps _ _ s' t' := s'.gist = t'.gist
  waits := Eq

/-! ## Records and worlds of one gist -/

/-- Records of one gist. -/
def Run.Similar (r r' : Run) : Prop :=
  r.gist = r'.gist

namespace Run

variable {r r' : Run} (h : r.gist = r'.gist)

include h

theorem id_of_gist : r.id = r'.id :=
  (congrArg id h :)

theorem status_of_gist : r.status = r'.status :=
  (congrArg status h :)

theorem context_of_gist : r.context = r'.context :=
  (congrArg context h :)

theorem workflowId_of_gist : r.workflowId = r'.workflowId :=
  (congrArg workflowId h :)

end Run

/-- Two ways in which a run is halted that differ in words only. -/
inductive Halt.Alike : Halt → Halt → Prop
  | failed (node error error' : String) : Alike (.failed node error) (.failed node error')
  | cancelled : Alike .cancelled .cancelled
  | timedOut : Alike .timedOut .timedOut

namespace Driver

/-! ## Attempts -/

/-- The time is read, and handed on. -/
theorem alike_clock_gist {α β : Type} {results : α → β → Prop} {k : Nat → Process World α}
    {k' : Nat → Process World β} (hk : ∀ now, (k now).Alike .gist results (k' now)) :
    (clock >>= k).Alike .gist results (clock >>= k') := by
  refine alike_read_bind (fun _ _ h => h) fun s t hs => ?_
  rw [World.now_of_recast hs]
  exact hk t.now

theorem alike_save_gist {r r' : Run} (hr : r.gist = r'.gist) :
    (save r).Alike .gist Run.Similar (save r') :=
  alike_stepLocked fun _ _ hs => World.saveRun_of_recast Run.gist_recasts hs hr

/-- Whether a run was cancelled is read, and handed on. -/
theorem alike_isCancelled_gist (d : Driver) {r r' : Run} (hr : r.gist = r'.gist) {α β : Type}
    {results : α → β → Prop} {k : Bool → Process World α} {k' : Bool → Process World β}
    (hk : ∀ cancelled, (k cancelled).Alike .gist results (k' cancelled)) :
    (d.isCancelled r >>= k).Alike .gist results (d.isCancelled r' >>= k') := by
  refine alike_read_bind (fun _ _ h => h) fun s t hs => ?_
  rw [World.isFired_of_recast hs, Run.status_of_gist hr]
  exact hk _

theorem alike_sleep_gist (d : Driver) (ms : Nat) : (d.sleep ms).Alike .gist Eq (d.sleep ms) :=
  alike_clock_gist fun _ => alike_pause rfl

/-- Two attempts come to the same, up to words, and so do their logs. -/
def EndsAlike (a b : Logger × Verdict) : Prop :=
  a.1.Alike b.1 ∧ a.2.Alike b.2

theorem alike_awaitEnd_gist (d : Driver) {log log' : Logger} (hlog : log.Alike log')
    (finish : Option Finish) :
    (d.awaitEnd log finish).Alike .gist EndsAlike (d.awaitEnd log' finish) := by
  cases finish with
  | none =>
    refine Alike.bind ?_ (alike_pause rfl)
    rintro wake _ rfl
    exact ⟨hlog, .refl _⟩
  | some finish =>
    have hlasts : (d.lasts finish).Alike .gist Eq (d.lasts finish) := by
      unfold lasts
      cases finish.lasts with
      | none => exact alike_done rfl
      | some ms => exact d.alike_sleep_gist ms
    rw [awaitEnd_some, awaitEnd_some]
    refine hlasts.bind ?_
    rintro wake _ rfl
    cases wake with
    | elapsed => exact alike_clock_gist fun now => ⟨hlog.writeAll now finish.closing, .refl _⟩
    | cancelled => exact ⟨hlog, .refl _⟩
    | deadline => exact ⟨hlog, .refl _⟩

section

variable {executors : Executors} {node node' : Node} (hnode : executors.Equates node node')
  {executor : Executor} (hexecutor : executors node.type = some executor)
  {r r' : Run} (hr : r.gist = r'.gist)

include hnode hexecutor hr

theorem alike_attempt_gist (d : Driver) {log log' : Logger} (hlog : log.Alike log') :
    (d.attempt executor node r log).Alike .gist EndsAlike (d.attempt executor node' r' log') := by
  refine Alike.bind ?_ (alike_pause rfl)
  rintro wake _ rfl
  cases wake with
  | cancelled => exact ⟨hlog, .refl _⟩
  | deadline => exact ⟨hlog, .refl _⟩
  | elapsed =>
    intro s t hs
    have haround : executor node ⟨r.context, r.id, r.workflowId, s.now⟩ s.services =
        executor node ⟨r'.context, r'.id, r'.workflowId, t.now⟩ t.services := by
      rw [Run.context_of_gist hr, Run.id_of_gist hr, Run.workflowId_of_gist hr,
        World.now_of_recast hs, World.services_of_recast hs]
    obtain ⟨hattempt, hservices⟩ := hnode.attempt executor hexecutor
      ⟨r'.context, r'.id, r'.workflowId, t.now⟩ t.services
    have hnow := World.now_of_recast hs
    dsimp only
    rw [haround]
    generalize executor node _ t.services = answer, executor node' _ t.services = answer'
      at hattempt hservices ⊢
    obtain ⟨attempt, _⟩ := answer
    obtain ⟨attempt', services⟩ := answer'
    obtain rfl := hservices
    refine ⟨World.recast_withServices hs services, ?_⟩
    dsimp only
    rw [hnow]
    cases hattempt with
    | same attempt =>
      exact ⟨rfl, d.alike_awaitEnd_gist (hlog.writeAll t.now attempt.opening) attempt.finish⟩
    | failed e e' => exact ⟨rfl, alike_clock_gist fun now => ⟨hlog, .failed _ _⟩⟩

/-- The numbers, logs and verdicts of attempts that are alike. -/
theorem alike_attempts_gist (d : Driver) {w : Workflow}
    (hsettings : w.settings = d.workflow.settings) (more : Nat) :
    ∀ (number : Nat) {log log' : Logger}, log.Alike log' →
      (d.attempts executor node r more number log).Alike .gist
        (fun a b => a.1 = b.1 ∧ EndsAlike a.2 b.2)
        (attempts { d with workflow := w } executor node' r' more number log') := by
  induction more with
  | zero =>
    intro number log log' hlog
    refine (alike_attempt_gist hnode hexecutor hr d hlog).bind ?_
    exact fun _ _ h => ⟨rfl, h⟩
  | succ more ih =>
    intro number log log' hlog
    unfold Driver.attempts
    refine (alike_attempt_gist hnode hexecutor hr d hlog).bind ?_
    rintro ⟨log, _⟩ ⟨log', _⟩ ⟨hlog, hverdict⟩
    cases hverdict with
    | failed error error' =>
      refine alike_clock_gist fun now => ?_
      have hnoted : (log.write now (retryNote d.workflow.settings number error)).Alike
          (log'.write now (retryNote w.settings number error')) := hlog.write now rfl rfl
      dsimp only
      rw [hsettings] at hnoted ⊢
      refine (d.alike_sleep_gist _).bind ?_
      rintro wake _ rfl
      cases wake with
      | elapsed => exact ih (number + 1) hnoted
      | cancelled => exact ⟨rfl, hnoted, .refl _⟩
      | deadline => exact ⟨rfl, hnoted, .refl _⟩
    | completed output => exact ⟨rfl, hlog, .refl _⟩
    | cancelled => exact ⟨rfl, hlog, .refl _⟩
    | timedOut => exact ⟨rfl, hlog, .refl _⟩

end

/-! ## Nodes -/

section

variable {d : Driver} {w : Workflow} (hsettings : w.settings = d.workflow.settings)

section

variable {node node' : Node} (hnode : d.executors.Equates node node') {r r' : Run}
  (hr : r.gist = r'.gist)

include hsettings hnode hr

theorem alike_tries_gist : (d.tries node r).Alike .gist (fun a b => a.1 = b.1 ∧ EndsAlike a.2 b.2)
    (tries { d with workflow := w } node' r') := by
  unfold tries
  dsimp only
  rw [hsettings, hnode.type]
  cases hexecutor : d.executors node.type with
  | none => exact ⟨rfl, .refl _, .refl _⟩
  | some executor => exact alike_attempts_gist hnode hexecutor hr d hsettings _ 1 (.refl _)

/-- A run goes through corresponding nodes alike. -/
theorem alike_runNode_gist : (d.runNode node r).Alike .gist
    (fun a b => a.1.Similar b.1 ∧ a.2.Alike b.2)
    (runNode { d with workflow := w } node' r') := by
  rw [Driver.runNode_eq, Driver.runNode_eq]
  refine alike_clock_gist fun now => ?_
  have hvars : r.context.vars = r'.context.vars := congrArg Context.vars (Run.context_of_gist hr)
  have hstarted : (NodeRun.start node r.context.vars now).gist =
      (NodeRun.start node' r'.context.vars now).gist := by
    rw [hvars]
    exact NodeRun.gist_start hnode.id hnode.type _ now
  have hentered : (r.addNode (.start node r.context.vars now)).gist =
      (r'.addNode (.start node' r'.context.vars now)).gist := by
    rw [Run.gist_addNode, Run.gist_addNode, hr, hstarted]
  refine (alike_save_gist hentered).bind fun r₁ r₁' hr₁ => ?_
  refine (alike_tries_gist hsettings hnode hr₁).bind ?_
  rintro ⟨number, log, verdict⟩ ⟨_, log', verdict'⟩ ⟨rfl, hlog, hverdict⟩
  refine alike_clock_gist fun now' => ?_
  have habsorbed : Run.gist { r₁ with context := r₁.context.absorb node verdict } =
      Run.gist { r₁' with context := r₁'.context.absorb node' verdict' } := by
    rw [Context.absorb_alike _ hverdict hnode.id, Run.context_of_gist hr₁]
    exact (congrArg (fun r : Run => { r with context := r₁'.context.absorb node' verdict' }) hr₁ :)
  have hclosed :=
    NodeRun.gist_close hstarted hverdict d.workflow.settings now' hlog node node' number
  dsimp only
  rw [hsettings]
  refine (alike_save_gist ?_).bind fun r₂ r₂' hr₂ => alike_done ⟨hr₂, hverdict⟩
  rw [Run.gist_updateNode, Run.gist_updateNode, habsorbed, hclosed]

end

include hsettings

/-- Visits to corresponding nodes go on to the same nodes. -/
theorem alike_visit_gist {g g' : Graph} (hg : g.Varies d.executors.Equates g') (id : String)
    {r r' : Run} (hr : r.gist = r'.gist) : (d.visit g id r).Alike .gist
      (Onward.Alike Run.Similar Halt.Alike)
      (visit { d with workflow := w } g' id r') := by
  refine d.alike_isCancelled_gist hr fun cancelled => ?_
  split
  · exact .halt hr .cancelled
  · refine alike_read_bind (fun _ _ h => h) fun s t hs => ?_
    rw [World.now_of_recast hs]
    split
    · exact .halt hr .timedOut
    · have hnode := hg.node? (fun _ _ h => h.id) id
      generalize g.node? id = node?, g'.node? id = node?' at hnode ⊢
      cases hnode with
      | none => exact .follow [] hr
      | some hnode =>
        refine (alike_runNode_gist hsettings hnode hr).bind ?_
        rintro ⟨r₁, _⟩ ⟨r₁', _⟩ ⟨hr₁, hverdict⟩
        cases hverdict with
        | completed output =>
          dsimp only
          rw [hg.next_eq]
          exact .follow _ hr₁
        | cancelled => exact .halt hr₁ .cancelled
        | timedOut => exact .halt hr₁ .timedOut
        | failed error error' =>
          dsimp only
          rw [hsettings]
          refine alike_ite Iff.rfl (.follow [] ?_) (.halt hr₁ (.failed id error error'))
          exact congrArg (·.addFailure id) hr₁

end

/-! ## Runs -/

theorem alike_conclude_gist (d : Driver) (w : Workflow) {r r' : Run} (hr : r.gist = r'.gist)
    {halt halt' : Option Halt} (hhalt : Option.Rel Halt.Alike halt halt') :
    (d.conclude r halt).Alike .gist Run.Similar
      (conclude { d with workflow := w } r' halt') := by
  have hasked : ∀ now, (d.isCancelled r >>= fun cancelled =>
      if cancelled then save (r.cancel now) else save (r.finish .completed now)).Alike .gist
        Run.Similar (isCancelled { d with workflow := w } r' >>= fun cancelled =>
      if cancelled then save (r'.cancel now) else save (r'.finish .completed now)) := by
    refine fun now => d.alike_isCancelled_gist hr fun cancelled => ?_
    split
    · exact alike_save_gist (by rw [Run.gist_cancel, Run.gist_cancel, hr])
    · exact alike_save_gist (congrArg (·.finish .completed now) hr)
  refine alike_clock_gist fun now => ?_
  cases hhalt with
  | none => exact hasked now
  | some hhalt =>
    cases hhalt with
    | failed node error error' => exact alike_save_gist (by rw [Run.gist_fail, Run.gist_fail, hr])
    | timedOut => exact alike_save_gist (by rw [Run.gist_fail, Run.gist_fail, hr])
    | cancelled => exact hasked now

end Driver

/-- **Two drivers go alike**, from records of one gist on, if their executors do
the same at corresponding nodes, unless they fail at both. -/
theorem Engine.alike_drive_gist (e : Engine) {w w' : Workflow}
    (hw : w.Varies e.executors.Equates w') {r r' : Run} (hr : r.gist = r'.gist) (token : Nat) :
    (e.drive w r token).Alike .gist Run.Similar (e.drive w' r' token) := by
  unfold Engine.drive
  rw [Run.status_of_gist hr, hw.settings_eq]
  split
  · exact hr
  · refine Driver.alike_clock_gist fun now => ?_
    have hids : Node.KeepsId e.executors.Equates := fun _ _ h => h.id
    have hgraph := hw.graph hids
    dsimp only
    rw [hgraph.size_eq, hgraph.starts_eq hids]
    have hvisit := fun id (r r' : Run) (hr : r.gist = r'.gist) =>
      Driver.alike_visit_gist (d := ⟨e.executors, w, token, w.settings.timeout.map (now + ·)⟩)
        hw.settings_eq hgraph id hr
    refine (alike_walk hvisit _ _ _ hr).bind ?_
    rintro ⟨r₁, halt⟩ ⟨r₁', halt'⟩ ⟨hr₁, hhalt⟩
    exact Driver.alike_conclude_gist _ w' hr₁ hhalt

end Automation
