/-
Automation.Proofs.Engine.StoryTheorems — what a run goes through, told in
full.

`Engine.relate` takes a run through its workflow as the driver does, and
tells the `Story` of it: every node that was taken, with the trials and the
verdict on it. Without the story it is the driver (`Engine.fst_relate`).

The records of the run are those of its story (`NodeRun.Attests`), the
context is what the verdicts make of the first one, and the variables are
`Run.Recorded`; `Told` puts this together, and one more node keeps it
(`Driver.holds_tellNode`). It holds in any company in which fired tokens
stay fired, together with any invariant of the shared state that the others
keep and that handing in a recorded run keeps (`Driver.Hands`). What is said
of times is said of a punctual company.
-/
import Automation.Proofs.Engine.CoverageTheorems
import Automation.Proofs.Engine.TrialTheorems
import Automation.Proofs.Run.RecordTheorems

namespace Automation

open Automation.Json (Value Fields)
open Process

/-! ## Stories -/

/-- A node that was taken. -/
structure Chapter where
  node : Node
  verdict : Verdict
  trials : List Trial

/-- The nodes that were taken, in order. -/
abbrev Story := List Chapter

namespace Driver

/-- Take the run through one node, and tell the trials. -/
def tellNode (d : Driver) (node : Node) (run : Run) :
    Process World ((Run × Verdict) × List Trial) := do
  let now ← clock
  let started := NodeRun.start node run.context.vars now
  let run ← save (run.addNode started)
  let ((number, log, verdict), trials) ← d.tellTries node run
  let now ← clock
  let run ← save ({ run with context := run.context.absorb node verdict }.updateNode
    (started.close d.workflow.settings node now number log verdict))
  return ((run, verdict), trials)

/-- Visit a node of the graph, and tell the story. -/
def relateVisit (d : Driver) (g : Graph) (id : String) :
    Run × Story → Process World ((Run × Story) × Onward Halt)
  | (run, story) => do
    if ← d.isCancelled run then return ((run, story), .halt .cancelled)
    if ← d.isLate then return ((run, story), .halt .timedOut)
    match g.node? id with
    | none => return ((run, story), .follow [])
    | some node =>
      let ((run, verdict), trials) ← d.tellNode node run
      let story := story ++ [⟨node, verdict, trials⟩]
      match verdict with
      | .completed output => return ((run, story), .follow (g.next output.routing id))
      | .failed error =>
        if d.workflow.settings.errorHandling == .goOn then
          return ((run.addFailure id, story), .follow [])
        else return ((run, story), .halt (.failed id error))
      | .cancelled => return ((run, story), .halt .cancelled)
      | .timedOut => return ((run, story), .halt .timedOut)

theorem fst_tellNode (d : Driver) (node : Node) (run : Run) :
    Prod.fst <$> d.tellNode node run = d.runNode node run := by
  rw [runNode_eq]
  unfold tellNode
  simp only [← fst_tellTries, map_bind, bind_map_left]
  rfl

theorem map_relateVisit (d : Driver) (g : Graph) (id : String) (a : Run × Story) :
    (fun r => (r.1.1, r.2)) <$> d.relateVisit g id a = d.visit g id a.1 := by
  obtain ⟨run, story⟩ := a
  unfold relateVisit visit
  simp only [map_bind]
  congr 1
  funext cancelled
  cases cancelled
  case true => rfl
  simp only [Bool.false_eq_true, if_false, map_bind]
  congr 1
  funext late
  cases late
  case true => rfl
  simp only [Bool.false_eq_true, if_false]
  cases g.node? id with
  | none => rfl
  | some node =>
    simp only [← fst_tellNode, map_bind, bind_map_left]
    congr 1
    funext r
    obtain ⟨⟨run, verdict⟩, trials⟩ := r
    cases verdict with
    | failed error =>
      dsimp only
      split <;> rfl
    | completed output => rfl
    | cancelled => rfl
    | timedOut => rfl

end Driver

namespace Engine

/-- The driver of a run that begins now. -/
def driver (e : Engine) (w : Workflow) (token now : Nat) : Driver :=
  ⟨e.executors, w, token, w.settings.timeout.map (now + ·)⟩

/-- Take a run through its workflow, and tell the story. -/
def relate (e : Engine) (w : Workflow) (run : Run) (token : Nat) : Process World (Run × Story) := do
  if run.status.isTerminal then return (run, [])
  let now ← Driver.clock
  let d := e.driver w token now
  let g := Graph.ofWorkflow w
  let ((run, story), halt) ← walk (d.relateVisit g) g.size [] g.starts (run, [])
  return (← d.conclude run halt, story)

/-- **The driver tells its story**: without it, it is the driver. -/
theorem fst_relate (e : Engine) (w : Workflow) (run : Run) (token : Nat) :
    Prod.fst <$> e.relate w run token = e.drive w run token := by
  unfold relate drive
  split
  · rfl
  · simp only [map_bind]
    congr 1
    funext now
    have hwalk := map_walk ((e.driver w token now).map_relateVisit (Graph.ofWorkflow w))
      (Graph.ofWorkflow w).size [] (Graph.ofWorkflow w).starts (run, [])
    dsimp only at hwalk
    rw [show (⟨e.executors, w, token, w.settings.timeout.map (now + ·)⟩ : Driver) =
      e.driver w token now from rfl, ← hwalk, bind_map_left]
    congr 1
    funext r
    simp only [map_pure, bind_pure]

end Engine

/-! ## Records and chapters -/

/-- The output of a node after a verdict. -/
def Verdict.output? : Verdict → Option Value
  | .completed output => some output.value
  | _ => none

/-- The error of a node after a verdict. -/
def Verdict.error? (settings : Settings) : Verdict → Option String
  | .completed _ => none
  | .failed error => some error
  | .cancelled => some "Execution cancelled"
  | .timedOut => some settings.timeoutMessage

/-- The node has ended by itself. -/
def Verdict.Decides : Verdict → Prop
  | .completed _ | .failed _ => True
  | _ => False

/-- A record says what a chapter tells. -/
structure NodeRun.Attests (c : Company World) (d : Driver) (record : NodeRun) (chapter : Chapter) :
    Prop where
  nodeId : record.nodeId = chapter.node.id
  status : record.status = chapter.verdict.status
  output : record.output = chapter.verdict.output?
  error : record.error = chapter.verdict.error? d.workflow.settings
  /-- No node is started when the time of the run is up. -/
  started : ∃ now, record.startedAt = .reading now ∧ d.isUp now = false
  /-- The node is given up for the deadline when that has come; else it ends
  before. -/
  ended : ∃ now, record.completedAt = some (.reading now) ∧
    (chapter.verdict = .timedOut → d.isUp now = true) ∧
    (c.Punctual → chapter.verdict.Decides → d.isUp now = false)
  tried : Driver.Tried chapter.trials chapter.verdict ∨
    chapter.trials = [] ∧ d.executors chapter.node.type = none ∧
      ∃ error, chapter.verdict = .failed error
  inTime : ∀ trial ∈ chapter.trials, d.InTime c trial

section

variable (node : Node) (vars : Fields) (settings : Settings) (now now' number : Nat) (log : Logger)
  (verdict : Verdict)

theorem NodeRun.close_output :
    ((start node vars now).close settings node now' number log verdict).output =
      verdict.output? := by
  cases verdict <;> rfl

theorem NodeRun.close_error :
    ((start node vars now).close settings node now' number log verdict).error =
      verdict.error? settings := by
  cases verdict <;> rfl

theorem NodeRun.close_completedAt :
    ((start node vars now).close settings node now' number log verdict).completedAt =
      some (.reading now') := by
  cases verdict <;> rfl

theorem NodeRun.close_input :
    ((start node vars now).close settings node now' number log verdict).input =
      snapshot node vars := by
  cases verdict <;> rfl

/-- What a node leaves in the variables is what its record leaves. -/
theorem Context.absorb_vars (context : Context) :
    (context.absorb node verdict).vars =
      ((NodeRun.start node vars now).close settings node now' number log verdict).leave
        context.vars := by
  cases verdict with
  | completed output =>
    symm
    exact NodeRun.leave_of_completed rfl rfl context.vars
  | failed error => exact (NodeRun.leave_of_ne (by simp [Verdict.status]) _).symm
  | cancelled => exact (NodeRun.leave_of_ne (by simp [Verdict.status]) _).symm
  | timedOut => exact (NodeRun.leave_of_ne (by simp [Verdict.status]) _).symm

end

theorem Verdict.status_completed_iff (verdict : Verdict) :
    verdict.status = .completed ↔ verdict.output?.isSome = true := by
  cases verdict <;> simp [Verdict.status, Verdict.output?]

/-- The record of a node that comes to its end attests what happened. -/
theorem NodeRun.close_attests {c : Company World} {d : Driver} {node : Node} {vars : Fields}
    {now now' number : Nat} {log : Logger} {verdict : Verdict} {trials : List Trial}
    (hup : d.isUp now = false) (hlate : verdict = .timedOut → d.isUp now' = true)
    (hdecided : c.Punctual → verdict.Decides → d.isUp now' = false)
    (htried : Driver.Tried trials verdict ∨
      trials = [] ∧ d.executors node.type = none ∧ ∃ error, verdict = .failed error)
    (htime : ∀ trial ∈ trials, d.InTime c trial) :
    ((start node vars now).close d.workflow.settings node now' number log verdict).Attests c d
      ⟨node, verdict, trials⟩ where
  nodeId := close_nodeId ..
  status := close_status ..
  output := close_output ..
  error := close_error ..
  started := ⟨now, close_startedAt .., hup⟩
  ended := ⟨now', close_completedAt .., hlate, hdecided⟩
  tried := htried
  inTime := htime

section

variable {run run₁ run₂ : Run} {node : Node} {verdict : Verdict} {record : NodeRun} {w : Workflow}
  {seed : Fields}

/-- A run that has taken up one more node. -/
theorem Run.Recorded.addNode (h : run.Recorded w seed) (hnode : node ∈ w.nodes) (now : Nat) :
    (run.addNode (.start node run.context.vars now)).Recorded w seed := by
  refine h.snoc hnode rfl rfl rfl ?_ ?_
  · simp [NodeRun.start]
  · exact (NodeRun.leave_of_ne (by simp [NodeRun.start]) _).symm

/-- What comes back when the node has come to its end. -/
theorem Run.Echoes.through {started : NodeRun} (h₁ : run₁.Echoes (run.addNode started))
    (h₂ : run₂.Echoes
      (Run.updateNode { run₁ with context := run₁.context.absorb node verdict } record)) :
    run₂.Echoes { run with
      context := run.context.absorb node verdict, nodes := run.nodes ++ [record] } where
  id := h₂.id.trans h₁.id
  nodes := by simp [h₂.nodes, h₁.nodes, Run.updateNode, Run.addNode]
  context := by simp [h₂.context, h₁.context, Run.updateNode, Run.addNode]
  metadata := h₂.metadata.trans h₁.metadata
  same := by
    rcases h₂.same with h | rfl
    · exact Or.inl h
    · rcases h₁.same with h | rfl
      · exact Or.inl h
      · exact Or.inr (by simp [Run.updateNode, Run.addNode])

/-- A run in which a node has come to its end. -/
theorem Run.Recorded.through (h : run.Recorded w seed) (hnode : node ∈ w.nodes)
    (settings : Settings) (now now' number : Nat) (log : Logger) (verdict : Verdict) :
    Run.Recorded { run with
      context := run.context.absorb node verdict
      nodes := run.nodes ++ [(NodeRun.start node run.context.vars now).close settings node now'
        number log verdict] } w seed := by
  refine h.snoc hnode (NodeRun.close_nodeId ..) rfl (NodeRun.close_input ..) ?_
    (Context.absorb_vars ..)
  rw [NodeRun.close_status, NodeRun.close_output, Verdict.status_completed_iff]

end

/-- What a story makes of a context. -/
def Story.context (story : Story) (first : Context) : Context :=
  story.foldl (fun context chapter => context.absorb chapter.node chapter.verdict) first

/-- A run and its story, from the record it began with on. -/
structure Told (c : Company World) (d : Driver) (first run : Run) (story : Story) : Prop where
  id : run.id = first.id
  attested : List.Forall₂ (NodeRun.Attests c d) run.nodes story
  context : run.context = story.context first.context
  recorded : run.Recorded d.workflow first.context.vars

namespace Told

variable {c : Company World} {d : Driver} {first run run' : Run} {story : Story}

theorem start (h : first.nodes = []) : Told c d first first [] where
  id := rfl
  attested := by rw [h]; exact .nil
  context := rfl
  recorded := .start h

theorem congr (h : Told c d first run story) (hid : run'.id = run.id)
    (hnodes : run'.nodes = run.nodes) (hcontext : run'.context = run.context) :
    Told c d first run' story where
  id := hid.trans h.id
  attested := hnodes ▸ h.attested
  context := hcontext.trans h.context
  recorded := h.recorded.congr hnodes hcontext

theorem echoes (h : Told c d first run story) (he : run'.Echoes run) : Told c d first run' story :=
  h.congr he.id he.nodes he.context

end Told

/-! ## Driving -/

/-- A driver in a company in which fired tokens stay fired, with an invariant
that it keeps by handing in what is recorded of its run. -/
structure Driver.Hands (d : Driver) (c : Company World) (always : World → Prop) (first : Run) :
    Prop extends d.Guards c always where
  tokens : ∀ place s s', c.others place s s' → s.TokensStay s'
  save : ∀ s run, always s → run.id = first.id → run.Recorded d.workflow first.context.vars →
    always (s.saveRun run).2

namespace Driver

variable {d : Driver} {c : Company World} {always : World → Prop} {first : Run}

theorem holds_save (hh : d.Hands c always first) {run : Run}
    (hrun : run.Recorded d.workflow first.context.vars) (hid : run.id = first.id) {s : World}
    (hs : always s) :
    (save run).Holds c always (fun run' s' => run'.Echoes run ∧ s.TokensStay s' ∧
      (c.Punctual → s'.now = s.now)) s := by
  intro s₁ ho
  have hs₁ := hh.others _ _ _ d.stands_lock hs ho
  refine ⟨hs₁, holds_done (hh.save s₁ run hs₁ hid hrun) ⟨Store.save_echoes s₁.store run, ?_, ?_⟩⟩
  · exact fun k hk => World.TokensStay.saveRun s₁ run k (hh.tokens _ _ _ ho k hk)
  · exact fun hp => hp.lock s s₁ ho

/-- What a verdict on a node tells of the moment at which it is given. -/
theorem Justifies.decided {s : World} {verdict : Verdict} (h : d.Justifies s verdict)
    (hd : verdict.Decides) : d.isUp s.now = false := by
  cases verdict with
  | completed output => exact h
  | failed error => exact h
  | cancelled => cases hd
  | timedOut => cases hd

/-- What the trials of a node come to. -/
theorem holds_tellTries (hg : d.Guards c always) (node : Node) (run : Run) {s : World}
    (hs : always s) :
    (d.tellTries node run).Holds c always (fun ((_, _, verdict), trials) s' =>
      (Tried trials verdict ∨
        trials = [] ∧ d.executors node.type = none ∧ ∃ error, verdict = .failed error) ∧
      (∀ trial ∈ trials, d.InTime c trial) ∧
      (verdict = .cancelled → s'.store.isFired d.token = true) ∧
      (verdict = .timedOut → d.isUp s'.now = true) ∧
      (d.isUp s.now = false → verdict.Decides → d.isUp s'.now = false)) s := by
  unfold tellTries
  cases hexecutor : d.executors node.type with
  | none =>
    exact holds_done hs ⟨Or.inr ⟨rfl, rfl, _, rfl⟩, by simp, by simp, by simp, fun hup _ => hup⟩
  | some executor =>
    refine (holds_tellAttempts hg executor node run _ 1 _ hs).mono ?_
    rintro ⟨⟨number, log, verdict⟩, trials⟩ s' ⟨hjust, htried, htime⟩
    refine ⟨Or.inl htried, htime, ?_, ?_, fun _ hd => hjust.decided hd⟩
    · rintro rfl
      exact hjust
    · rintro rfl
      exact hjust

/-- **Through a node**: the run has one more record, which attests what
happened, and nothing else of it has changed unless it was cancelled. -/
theorem holds_tellNode (hh : d.Hands c always first) {node : Node} (hnode : node ∈ d.workflow.nodes)
    {run : Run} (hid : run.id = first.id) (hrun : run.Recorded d.workflow first.context.vars)
    {s : World} (hs : always s) (hup : d.isUp s.now = false) :
    (d.tellNode node run).Holds c always (fun ((run', verdict), trials) s' => ∃ record,
      record.Attests c d ⟨node, verdict, trials⟩ ∧
      run'.Recorded d.workflow first.context.vars ∧
      run'.Echoes { run with
        context := run.context.absorb node verdict, nodes := run.nodes ++ [record] } ∧
      (verdict = .cancelled → s'.store.isFired d.token = true) ∧
      (c.Punctual → record.completedAt = some (.reading s'.now))) s := by
  refine holds_bind.mpr (holds_read hs (holds_bind.mpr ?_))
  refine (holds_save hh (hrun.addNode hnode s.now) hid hs).and_now.mono ?_
  rintro run₁ s₁ ⟨⟨he₁, -, hclock₁⟩, hs₁⟩
  refine holds_bind.mpr ((holds_tellTries hh.toGuards node run₁ hs₁).and_now.mono ?_)
  rintro ⟨⟨number, log, verdict⟩, trials⟩ s₂ ⟨⟨htried, htime, hfired, hlate, hdecided⟩, hs₂⟩
  refine holds_bind.mpr (holds_read hs₂ (holds_bind.mpr ?_))
  have hthrough := hrun.through hnode d.workflow.settings s.now s₂.now number log verdict
  have hended := hthrough.echoes (he₁.through .rfl)
  refine (holds_save hh hended (he₁.id.trans hid) hs₂).and_now.mono ?_
  rintro run₂ s₃ ⟨⟨he₂, htokens, hclock₂⟩, hs₃⟩
  refine holds_done hs₃ ⟨_, NodeRun.close_attests hup hlate ?_ htried htime,
    hended.echoes he₂, he₁.through he₂, fun hv => htokens _ (hfired hv), fun hp => ?_⟩
  · intro hp
    rw [hclock₁ hp] at hdecided
    exact hdecided hup
  · rw [NodeRun.close_completedAt, hclock₂ hp]

end Driver

end Automation
