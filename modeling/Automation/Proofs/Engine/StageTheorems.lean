/-
Automation.Proofs.Engine.StageTheorems — the stages of a run.

A run is between two nodes, or a node is in hand: it has been started, an
attempt at it is under way, or there is a verdict on it. In the end the
record is closed. `Stages` says what holds at each of these stages, in the
light of what the driver has done so far, and `Stages.Sound` has one rule
for each way from a stage to the next one and one for each place where the
others come in. So to learn something about drivers in company it is
enough to check these rules; how often a node is attempted, in which order
nodes are visited and why a run ends does not matter.

`Driver.assures_runNode` takes a run through a node, `Engine.assures_drive`
through its workflow, and `Engine.assures_execute` from its start to its
end.
-/
import Automation.Proofs.Engine.TraceTheorems
import Automation.Proofs.Engine.ClosingTheorems
import Automation.Proofs.Run.RaceTheorems

namespace Automation

open Process
open Race (Decision)

variable {ε α β : Type}

/-- Whether an attempt waits for its end. -/
def Attempt.waits (attempt : Attempt) : Bool :=
  attempt.finish.all (·.lasts.isSome)

/-- What holds at each stage of a run, in the light of the log of its driver. -/
structure Stages (ε : Type) where
  /-- Between two nodes. -/
  between : Run → List ε → World → Prop
  /-- A node is in hand, with the record of its start, and no attempt at it is
  under way. -/
  within : Node → NodeRun → Run → List ε → World → Prop
  /-- An attempt at the node is under way. -/
  called : Node → NodeRun → Run → Attempt → List ε → World → Prop
  /-- There is a verdict on the node. -/
  judged : Node → NodeRun → Run → Verdict → List ε → World → Prop
  /-- The record is closed. -/
  closed : Run → List ε → World → Prop

/-- The stages of runs that are driven in this way, on these terms. -/
structure Stages.Sound (stages : Stages ε) (executors : Executors) (w : Workflow)
    (terms : Terms World ε) : Prop where
  between_others : ∀ {run log s s'}, terms.others none s s' → stages.between run log s →
    stages.between run log s'
  within_others : ∀ {node started run wait log s s'}, terms.others (some wait) s s' →
    stages.within node started run log s → stages.within node started run log s'
  called_others : ∀ {node started run attempt wait log s s'}, terms.others (some wait) s s' →
    stages.called node started run attempt log s → stages.called node started run attempt log s'
  judged_others : ∀ {node started run verdict log s s'}, terms.others none s s' →
    stages.judged node started run verdict log s → stages.judged node started run verdict log s'
  between_stop : ∀ {α : Type} {q : Process World α} {run log s}, q.wait? = none →
    stages.between run log s → terms.stop q log s
  judged_stop : ∀ {α : Type} {q : Process World α} {node started run verdict log s},
    q.wait? = none → stages.judged node started run verdict log s → terms.stop q log s
  within_stop : ∀ {α : Type} {q : Process World α} {d : Driver} {node started run log s},
    d.executors = executors → d.workflow = w → Inside (d.tries node run) q →
    stages.within node started run log s → terms.stop q log s
  called_stop : ∀ {α : Type} {q : Process World α} {d : Driver} {node started run attempt log s},
    d.executors = executors → d.workflow = w → Inside (d.tries node run) q →
    attempt.waits = true → stages.called node started run attempt log s → terms.stop q log s
  enter : ∀ {node run log s} (now : Nat), node ∈ w.nodes → stages.between run log s →
    let started := NodeRun.start node run.context.vars now
    let saved := s.saveRun (run.addNode started)
    terms.own s saved.2 ∧
      stages.within node started saved.1 (log ++ terms.entry s saved.2) saved.2
  invoke : ∀ {node started run executor log s}, executors node.type = some executor →
    stages.within node started run log s →
    let answer := executor node ⟨run.context, run.id, run.workflowId, s.now⟩ s.services
    let s' := { s with services := answer.2 }
    terms.own s s' ∧ stages.called node started run answer.1 (log ++ terms.entry s s') s'
  refused : ∀ {node started run log s} (error : String), executors node.type = none →
    stages.within node started run log s →
    stages.judged node started run (.failed error) log s
  cutOff : ∀ {node started run log s} (wake : Wake), stages.within node started run log s →
    stages.judged node started run (Driver.cutOff wake) log s
  dropped : ∀ {node started run attempt log s} (wake : Wake), attempt.waits = true →
    stages.called node started run attempt log s →
    stages.judged node started run (Driver.cutOff wake) log s
  ended : ∀ {node started run attempt finish log s}, attempt.finish = some finish →
    stages.called node started run attempt log s →
    stages.judged node started run (.ofEnding finish.ending) log s
  again : ∀ {node started run error log s}, stages.judged node started run (.failed error) log s →
    stages.within node started run log s
  leave : ∀ {node started run verdict log s} (now number : Nat) (logger : Logger),
    stages.judged node started run verdict log s →
    let saved := s.saveRun <|
      Run.updateNode { run with context := run.context.absorb node verdict }
        (started.close w.settings node now number logger verdict)
    terms.own s saved.2 ∧ stages.between saved.1 (log ++ terms.entry s saved.2) saved.2
  failed : ∀ {run log s} (id : String), stages.between run log s →
    stages.between (run.addFailure id) log s
  close : ∀ {run log s} (decision : Decision) (now : Nat), stages.between run log s →
    let saved := s.saveRun (decision.apply run now)
    terms.own s saved.2 ∧ stages.closed saved.1 (log ++ terms.entry s saved.2) saved.2

namespace Driver

/-! ## Waits -/

section

variable {terms : Terms World ε} {there : Option Wait → List ε → World → Prop}
  (inv : List ε → World → Prop)
  (hothers : ∀ wait log s s', terms.others (some wait) s s' → inv log s → inv log s')
  (hthere : ∀ wait log s, inv log s → there (some wait) log s)

include hothers hthere

theorem assures_pause (d : Driver) (due : Due) {log : List ε} {s : World} (h : inv log s) :
    (d.pause due).Assures (terms.watching there) (fun _ => inv) log s :=
  fun _ ho => ⟨hthere _ _ _ (hothers _ _ _ _ ho h), fun _ _ => hothers _ _ _ _ ho h⟩

theorem assures_sleep (d : Driver) (ms : Nat) {log : List ε} {s : World} (h : inv log s) :
    (d.sleep ms).Assures (terms.watching there) (fun _ => inv) log s :=
  assures_read_bind (assures_pause inv hothers hthere d _ h)

end

/-! ## Attempts -/

section

variable {stages : Stages ε} {d : Driver} {terms : Terms World ε}
  (hs : stages.Sound d.executors d.workflow terms) {node : Node} {started : NodeRun} {run : Run}

/-- What holds where a driver waits with a node in hand. -/
def waiting (stages : Stages ε) (node : Node) (started : NodeRun) (run : Run)
    (place : Option Wait) (log : List ε) (s : World) : Prop :=
  place.isSome = true ∧ (stages.within node started run log s ∨
    ∃ attempt, attempt.waits = true ∧ stages.called node started run attempt log s)

include hs

theorem assures_awaitEnd (logger : Logger) {attempt : Attempt} {log : List ε} {s : World}
    (h : stages.called node started run attempt log s) :
    (d.awaitEnd logger attempt.finish).Assures (terms.watching (waiting stages node started run))
      (fun (_, verdict) log s => stages.judged node started run verdict log s) log s := by
  have hothers : ∀ wait log s s', terms.others (some wait) s s' →
      stages.called node started run attempt log s →
      stages.called node started run attempt log s' :=
    fun _ _ _ _ => hs.called_others
  have hthere : attempt.waits = true → ∀ wait log s,
      stages.called node started run attempt log s →
      waiting stages node started run (some wait) log s :=
    fun hw _ _ _ hc => ⟨rfl, Or.inr ⟨attempt, hw, hc⟩⟩
  cases hfinish : attempt.finish with
  | none =>
    have hw : attempt.waits = true := by simp [Attempt.waits, hfinish]
    refine Assures.bind ((assures_pause _ hothers (hthere hw) d .never h).mono ?_)
    exact fun wake log s hc => hs.dropped wake hw hc
  | some finish =>
    rw [awaitEnd_some]
    unfold lasts
    cases hlasts : finish.lasts with
    | none => exact assures_read_bind (hs.ended hfinish h)
    | some ms =>
      have hw : attempt.waits = true := by simp [Attempt.waits, hfinish, hlasts]
      refine Assures.bind ((assures_sleep _ hothers (hthere hw) d ms h).mono ?_)
      intro wake log s hc
      cases wake with
      | elapsed => exact assures_read_bind (hs.ended hfinish hc)
      | cancelled => exact hs.dropped .cancelled hw hc
      | deadline => exact hs.dropped .deadline hw hc

theorem assures_pause_within (due : Due) {log : List ε} {s : World}
    (h : stages.within node started run log s) :
    (d.pause due).Assures (terms.watching (waiting stages node started run))
      (fun _ => stages.within node started run) log s := by
  refine assures_pause _ ?_ ?_ d due h
  · exact fun _ _ _ _ => hs.within_others
  · exact fun _ _ _ hwithin => ⟨rfl, Or.inl hwithin⟩

theorem assures_attempt {executor : Executor} (hexecutor : d.executors node.type = some executor)
    (logger : Logger) {log : List ε} {s : World} (h : stages.within node started run log s) :
    (d.attempt executor node run logger).Assures
      (terms.watching (waiting stages node started run))
      (fun (_, verdict) log s => stages.judged node started run verdict log s) log s := by
  refine Assures.bind ((assures_pause_within hs .nothing h).mono ?_)
  intro wake log s h
  cases wake with
  | cancelled => exact hs.cutOff .cancelled h
  | deadline => exact hs.cutOff .deadline h
  | elapsed =>
    obtain ⟨hown, hcalled⟩ := hs.invoke hexecutor h
    exact ⟨hown, assures_awaitEnd hs _ hcalled⟩

theorem assures_attempts {executor : Executor} (hexecutor : d.executors node.type = some executor)
    (more : Nat) : ∀ (number : Nat) (logger : Logger) {log : List ε} {s : World},
      stages.within node started run log s →
      (d.attempts executor node run more number logger).Assures
        (terms.watching (waiting stages node started run))
        (fun (_, _, verdict) log s => stages.judged node started run verdict log s) log s := by
  induction more with
  | zero =>
    intro number logger log s h
    unfold attempts
    refine Assures.bind ((assures_attempt hs hexecutor logger h).mono ?_)
    exact fun _ _ _ hj => hj
  | succ more ih =>
    intro number logger log s h
    unfold attempts
    refine Assures.bind ((assures_attempt hs hexecutor logger h).mono ?_)
    rintro ⟨logger, verdict⟩ log s hj
    cases verdict with
    | completed output => exact hj
    | cancelled => exact hj
    | timedOut => exact hj
    | failed error =>
      refine assures_read_bind (Assures.bind (assures_read_bind ?_))
      refine (assures_pause_within hs _ (hs.again hj)).mono ?_
      intro wake log s h
      cases wake with
      | elapsed => exact ih _ _ h
      | cancelled => exact hs.cutOff .cancelled h
      | deadline => exact hs.cutOff .deadline h

/-- All attempts at a node; wherever the driver waits, it is in the middle of
them. -/
theorem assures_tries {log : List ε} {s : World} (h : stages.within node started run log s) :
    (d.tries node run).Assures terms
      (fun (_, _, verdict) log s => stages.judged node started run verdict log s) log s := by
  have hstop : ∀ q log s, Rest (d.tries node run) q → q.AtStop →
      waiting stages node started run q.wait? log s → terms.stop q log s := by
    rintro q log s hrest - ⟨-, hwithin | ⟨attempt, hw, hcalled⟩⟩
    · exact hs.within_stop rfl rfl (inside_of_rest hrest) hwithin
    · exact hs.called_stop rfl rfl (inside_of_rest hrest) hw hcalled
  refine Assures.watch hstop .self ?_
  unfold tries
  cases hexecutor : d.executors node.type with
  | none => exact hs.refused _ hexecutor h
  | some executor => exact assures_attempts hs hexecutor _ 1 _ h

/-! ## Nodes -/

/-- **Through a node.** -/
theorem assures_runNode (hnode : node ∈ d.workflow.nodes) {log : List ε} {s : World}
    (h : stages.between run log s) :
    (d.runNode node run).Assures terms (fun r => stages.between r.1) log s := by
  rw [runNode_eq]
  refine assures_read_bind (Assures.bind ?_)
  intro s₁ ho₁
  have h₁ := hs.between_others ho₁ h
  obtain ⟨hown₁, hwithin⟩ := hs.enter s.now hnode h₁
  refine ⟨hs.between_stop rfl h₁, hown₁, Assures.bind ((assures_tries hs hwithin).mono ?_)⟩
  rintro ⟨number, logger, verdict⟩ log s₂ hj
  refine assures_read_bind (Assures.bind ?_)
  intro s₃ ho₃
  have hj₃ := hs.judged_others ho₃ hj
  obtain ⟨hown₃, hbetween⟩ := hs.leave s₂.now number logger hj₃
  exact ⟨hs.judged_stop rfl hj₃, hown₃, hbetween⟩

omit hs in
theorem assures_visit (hs : stages.Sound d.executors d.workflow terms) (id : String)
    {log : List ε} {s : World} (h : stages.between run log s) :
    (d.visit (Graph.ofWorkflow d.workflow) id run).Assures terms (fun r => stages.between r.1)
      log s := by
  refine assures_read_bind ?_
  split
  · exact h
  · refine assures_read_bind ?_
    split
    · exact h
    · cases hnode : (Graph.ofWorkflow d.workflow).node? id with
      | none => exact h
      | some node =>
        have hmem : node ∈ d.workflow.nodes := firstNodes_subset [] _ (Graph.node?_some hnode).1
        refine Assures.bind ((assures_runNode hs hmem h).mono ?_)
        rintro ⟨run, verdict⟩ log s h
        cases verdict with
        | failed error =>
          dsimp only
          split
          · exact hs.failed id h
          · exact h
        | completed output => exact h
        | cancelled => exact h
        | timedOut => exact h

/-- The record is closed. -/
theorem assures_conclude (halt : Option Halt) {log : List ε} {s : World}
    (h : stages.between run log s) :
    (d.conclude run halt).Assures terms stages.closed log s := by
  have hsave : ∀ (decision : Decision) (now : Nat) (log : List ε) (s : World),
      stages.between run log s →
      (save (decision.apply run now)).Assures terms stages.closed log s := by
    intro decision now log s h s₁ ho
    have h₁ := hs.between_others ho h
    exact ⟨hs.between_stop rfl h₁, hs.close decision now h₁⟩
  have hasked : ∀ now, (d.isCancelled run >>= fun cancelled =>
      if cancelled then save (run.cancel now) else save (run.finish .completed now)).Assures
        terms stages.closed log s := by
    refine fun now => assures_read_bind ?_
    split
    · exact hsave .cancelled now log s h
    · exact hsave .completed now log s h
  refine assures_read_bind ?_
  cases halt with
  | none => exact hasked s.now
  | some reason =>
    cases reason with
    | failed node error => exact hsave (.failed _) s.now log s h
    | timedOut => exact hsave (.failed _) s.now log s h
    | cancelled => exact hasked s.now

end

end Driver

/-! ## Runs -/

/-- The record with which a run is set off in a state. -/
def Engine.opening (e : Engine) (w : Workflow) (payload : Json.Value) (options : RunOptions)
    (s : World) : Run :=
  .start w s.nextRun payload
    (Context.seed w payload options.overrides e.config.environment (.reading s.now))
    options.source s.now

/-- A run as it comes to its driver: open, or closed already. -/
def Stages.handedOn (stages : Stages ε) (run : Run) (log : List ε) (s : World) : Prop :=
  (run.status.isTerminal = true → stages.closed run log s) ∧
    (run.status.isTerminal = false → stages.between run log s)

/-- How a run is set off on these terms; before it is entered there is
`before`. -/
structure Stages.Opens (stages : Stages ε) (before : List ε → World → Prop) (opening : Run)
    (terms : Terms World ε) : Prop where
  before_others : ∀ {log s s'}, terms.others none s s' → before log s → before log s'
  before_stop : ∀ {α : Type} {q : Process World α} {log s}, q.wait? = none → before log s →
    terms.stop q log s
  register : ∀ {log s}, before log s →
    let added := s.addRun opening
    terms.own s added.2 ∧ stages.between opening (log ++ terms.entry s added.2) added.2

namespace Engine

variable {e : Engine} {w : Workflow} {stages : Stages ε} {terms : Terms World ε}

/-- **Setting a run off.** -/
theorem assures_prepare (hs : stages.Sound e.executors w terms) {before : List ε → World → Prop}
    {payload : Json.Value} {options : RunOptions} {log : List ε} {s : World}
    (ho : stages.Opens before (e.opening w payload options s) terms) (h : before log s) :
    (e.prepare w payload options).Assures terms (fun r => stages.handedOn r.1) log s := by
  unfold prepare
  refine assures_read_bind (assures_read_bind (Assures.bind ?_))
  intro s₁ ho₁
  have h₁ := ho.before_others ho₁ h
  obtain ⟨hown₁, hbetween⟩ := ho.register h₁
  refine ⟨ho.before_stop rfl h₁, hown₁, ?_⟩
  cases w.isValid with
  | true => exact ⟨fun hend => Bool.noConfusion hend, fun _ => hbetween⟩
  | false =>
    refine Assures.bind ?_
    intro s₂ ho₂
    have h₂ := hs.between_others ho₂ hbetween
    obtain ⟨hown₂, hover⟩ := hs.close
      (.failed ("Workflow validation failed: " ++ w.summary)) s.now h₂
    have hend : (s₂.saveRun ((e.opening w payload options s).fail
        ("Workflow validation failed: " ++ w.summary) s.now)).1.status.isTerminal = true := by
      rw [World.saveRun_fst]
      rcases Store.save_status s₂.store _ with hs | hs <;> rw [hs] <;> rfl
    exact ⟨hs.between_stop rfl h₂, hown₂, fun _ => hover,
      fun hlive => Bool.noConfusion (hend.symm.trans hlive)⟩

/-- **Driving a run.** -/
theorem assures_drive (hs : stages.Sound e.executors w terms) {run : Run} (token : Nat)
    {log : List ε} {s : World} (h : stages.handedOn run log s) :
    (e.drive w run token).Assures terms stages.closed log s := by
  unfold drive
  cases hend : run.status.isTerminal with
  | true => exact h.1 hend
  | false =>
    refine assures_read_bind (Assures.bind ?_)
    refine assures_walk (fun run log s => stages.between run log s) ?_ ?_ _ _ _ _ _ _ (h.2 hend)
    · exact fun run log s hb => Driver.assures_conclude hs none hb
    · intro id run log s hb
      refine (Driver.assures_visit hs id hb).mono ?_
      rintro ⟨run, onward⟩ log s hb
      cases onward with
      | follow targets => exact hb
      | halt reason => exact Driver.assures_conclude hs (some reason) hb

/-- **A run from its start to its end.** -/
theorem assures_execute (hs : stages.Sound e.executors w terms) {before : List ε → World → Prop}
    {payload : Json.Value} {options : RunOptions} {log : List ε} {s : World}
    (ho : stages.Opens before (e.opening w payload options s) terms) (h : before log s) :
    (e.execute w payload options).Assures terms stages.closed log s :=
  Assures.bind ((assures_prepare hs ho h).mono fun r _ _ hr => assures_drive hs r.2 hr)

end Engine

end Automation
