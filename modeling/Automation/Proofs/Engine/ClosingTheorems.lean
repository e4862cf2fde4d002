/-
Automation.Proofs.Engine.ClosingTheorems — how a driver closes the record
of a run.

Between two visits every node of the story has completed or failed, and the
run knows which have failed (`Judged`). When the walk is over, there is a
reason: all is visited, a node has failed that ends the run, or the time is
up (`Reason`); or the run was cancelled. The driver closes the record by
that reason (`Closed`), and `Engine.holds_relate` says so of the whole of a
run, in the company and with the invariant of `Driver.Hands`.

In a punctual company the reason also tells the time: the run is closed
when its time is up exactly if that is the reason.
-/
import Automation.Proofs.Engine.StoryTheorems

namespace Automation

open Process

variable {c : Company World} {d : Driver} {first run run' : Run} {story : Story}

/-! ## Reasons -/

/-- What a run knows of a part of its story: every node has completed or
failed, the run has noted the failures, and there are none if a failure
ends the run. -/
structure Judged (settings : Settings) (records : List NodeRun) (story : Story)
    (failed : List String) : Prop where
  decided : ∀ chapter ∈ story, chapter.verdict.Decides
  failures : failed = NodeRun.failures records
  strict : settings.errorHandling ≠ .goOn →
    ∀ chapter ∈ story, ∃ output, chapter.verdict = .completed output

/-- The run knows of its story but for the last part. -/
def Stopped (settings : Settings) (run : Run) (story last : Story) : Prop :=
  ∃ before records rest, story = before ++ last ∧ run.nodes = records ++ rest ∧
    records.length = before.length ∧ Judged settings records before run.metadata.failedNodes

/-- Why the driver comes to an end at this time. -/
inductive Reason (c : Company World) (d : Driver) (run : Run) (story : Story) (now : Nat) :
    Option Halt → Prop where
  /-- All is visited. -/
  | through : Judged d.workflow.settings run.nodes story run.metadata.failedNodes →
      (c.Punctual → d.isUp now = false) → Reason c d run story now none
  /-- A node has failed, and the run does not go on after failures. -/
  | failed {chapter : Chapter} {error : String} : d.workflow.settings.errorHandling ≠ .goOn →
      Stopped d.workflow.settings run story [chapter] → chapter.verdict = .failed error →
      (c.Punctual → d.isUp now = false) →
      Reason c d run story now (some (.failed chapter.node.id error))
  /-- The time is up, while a node was in hand or between two. -/
  | timedOut {last : Story} : d.deadline.isSome = true →
      Stopped d.workflow.settings run story last →
      (last = [] ∨ ∃ chapter, last = [chapter] ∧ chapter.verdict = .timedOut) →
      (c.Punctual → d.isUp now = true) → Reason c d run story now (some .timedOut)

theorem Judged.stopped {settings : Settings}
    (h : Judged settings run.nodes story run.metadata.failedNodes)
    (hlen : run.nodes.length = story.length) : Stopped settings run story [] :=
  ⟨story, run.nodes, [], by simp, by simp, hlen, h⟩

/-- The reason does not depend on how the record is closed. -/
theorem Reason.congr {now : Nat} {halt : Option Halt} (h : Reason c d run story now halt)
    (hnodes : run'.nodes = run.nodes) (hmetadata : run'.metadata = run.metadata) :
    Reason c d run' story now halt := by
  have hstopped : ∀ {last}, Stopped d.workflow.settings run story last →
      Stopped d.workflow.settings run' story last := by
    intro last hlast
    unfold Stopped
    rwa [hnodes, hmetadata]
  cases h with
  | through hj hup => exact .through (by rwa [hnodes, hmetadata]) hup
  | failed hmode hs hv hup => exact .failed hmode (hstopped hs) hv hup
  | timedOut hd hs hlast hup => exact .timedOut hd (hstopped hs) hlast hup

/-- How a run stands after the driver has come to an end. -/
def Halt.status : Option Halt → RunStatus
  | none => .completed
  | some .cancelled => .cancelled
  | some (.failed _ _) | some .timedOut => .failed

/-- The error of a run after the driver has come to an end. -/
def Halt.error? (settings : Settings) : Option Halt → Option String
  | some (.failed node error) => some ("Node '" ++ node ++ "' failed: " ++ error)
  | some .timedOut => some settings.timeoutMessage
  | _ => none

/-- A run that the driver has closed, and its story, in the state then. -/
structure Closed (c : Company World) (d : Driver) (first run : Run) (story : Story) (s : World) :
    Prop extends Told c d first run story where
  reason : run.status ≠ .cancelled → ∃ now halt, Reason c d run story now halt ∧
    run.completedAt = some (.reading now) ∧ run.status = Halt.status halt ∧
    run.error = Halt.error? d.workflow.settings halt ∧ (c.Punctual → now = s.now)

/-! ## Visits -/

theorem Told.snoc (h : Told c d first run story) {record : NodeRun} {chapter : Chapter}
    (hattests : record.Attests c d chapter)
    (hrecorded : run'.Recorded d.workflow first.context.vars)
    (he : run'.Echoes { run with
      context := run.context.absorb chapter.node chapter.verdict
      nodes := run.nodes ++ [record] }) : Told c d first run' (story ++ [chapter]) where
  id := he.id.trans h.id
  attested := by
    rw [he.nodes]
    exact List.rel_append h.attested (.cons hattests .nil)
  context := by
    rw [he.context, h.context]
    simp [Story.context]
  recorded := hrecorded

/-- What a record tells of the time. -/
theorem NodeRun.Attests.isUp {record : NodeRun} {chapter : Chapter} {now : Nat}
    (h : record.Attests c d chapter) (hnow : record.completedAt = some (.reading now)) :
    (chapter.verdict = .timedOut → d.isUp now = true) ∧
      (c.Punctual → chapter.verdict.Decides → d.isUp now = false) := by
  obtain ⟨now', hnow', hup⟩ := h.ended
  cases hnow.symm.trans hnow'
  exact hup

theorem Driver.isSome_of_isUp {now : Nat} (h : d.isUp now = true) : d.deadline.isSome = true := by
  unfold isUp at h
  cases hd : d.deadline with
  | none => simp [hd] at h
  | some deadline => rfl

/-- A run that goes on, unless it was cancelled. -/
def Run.Open (run : Run) : Prop :=
  run.status = .cancelled ∨ run.status = .running ∧ run.error = none

theorem Run.Echoes.open {r r' : Run} (h : r'.Echoes r) (ho : r.Open) : r'.Open := by
  rcases h.same with hs | rfl
  · exact Or.inl hs
  · exact ho

/-- One more node on the story. -/
theorem Judged.snoc {settings : Settings} {records : List NodeRun} {failed : List String}
    {record : NodeRun} {chapter : Chapter} (h : Judged settings records story failed)
    (hstatus : record.status = chapter.verdict.status) (hid : record.nodeId = chapter.node.id)
    (hv : (∃ output, chapter.verdict = .completed output) ∨
      settings.errorHandling = .goOn ∧ ∃ error, chapter.verdict = .failed error) :
    Judged settings (records ++ [record]) (story ++ [chapter])
      (failed ++ if record.status = .failed then [chapter.node.id] else []) where
  decided := by
    intro ch hch
    rcases List.mem_append.mp hch with hch | hch
    · exact h.decided ch hch
    · obtain rfl := List.mem_singleton.mp hch
      rcases hv with ⟨output, hv⟩ | ⟨-, error, hv⟩
      · rw [hv]; trivial
      · rw [hv]; trivial
  failures := by
    rw [NodeRun.failures_append, ← h.failures]
    congr 1
    by_cases hf : record.status = .failed
    · simp [NodeRun.failures, hf, hid]
    · simp [NodeRun.failures, hf]
  strict := by
    intro hmode ch hch
    rcases List.mem_append.mp hch with hch | hch
    · exact h.strict hmode ch hch
    · obtain rfl := List.mem_singleton.mp hch
      exact hv.resolve_right fun hgo => hmode hgo.1

/-- A node that stands apart. -/
theorem Judged.stop {settings : Settings} {records : List NodeRun} {record : NodeRun}
    {chapter : Chapter} (h : Judged settings records story run.metadata.failedNodes)
    (hlen : records.length = story.length) (hnodes : run.nodes = records ++ [record]) :
    Stopped settings run (story ++ [chapter]) [chapter] :=
  ⟨story, records, [record], rfl, hnodes, hlen, h⟩

/-- Between two visits. -/
structure Orderly (c : Company World) (d : Driver) (first run : Run) (story : Story) : Prop
    extends Told c d first run story where
  judged : Judged d.workflow.settings run.nodes story run.metadata.failedNodes
  isOpen : run.Open

/-- One more node has completed. -/
theorem Orderly.completed (h : Orderly c d first run story) {record : NodeRun} {chapter : Chapter}
    {output : Output} (hattests : record.Attests c d chapter)
    (hrecorded : run'.Recorded d.workflow first.context.vars)
    (he : run'.Echoes { run with
      context := run.context.absorb chapter.node chapter.verdict
      nodes := run.nodes ++ [record] })
    (hv : chapter.verdict = .completed output) : Orderly c d first run' (story ++ [chapter]) where
  toTold := h.toTold.snoc hattests hrecorded he
  judged := by
    have hsnoc := h.judged.snoc hattests.status hattests.nodeId (Or.inl ⟨output, hv⟩)
    rw [hattests.status, hv] at hsnoc
    rw [show run'.nodes = run.nodes ++ [record] from he.nodes,
      show run'.metadata = run.metadata from he.metadata]
    simpa [Verdict.status] using hsnoc
  isOpen := he.open h.isOpen

/-- One more node has failed, and the run goes on. -/
theorem Orderly.failed (h : Orderly c d first run story) {record : NodeRun} {chapter : Chapter}
    {error : String} (hattests : record.Attests c d chapter)
    (hrecorded : run'.Recorded d.workflow first.context.vars)
    (he : run'.Echoes { run with
      context := run.context.absorb chapter.node chapter.verdict
      nodes := run.nodes ++ [record] })
    (hmode : d.workflow.settings.errorHandling = .goOn) (hv : chapter.verdict = .failed error) :
    Orderly c d first (run'.addFailure chapter.node.id) (story ++ [chapter]) where
  toTold := (h.toTold.snoc hattests hrecorded he).congr rfl rfl rfl
  judged := by
    have hsnoc := h.judged.snoc hattests.status hattests.nodeId (Or.inr ⟨hmode, error, hv⟩)
    rw [hattests.status, hv] at hsnoc
    have hnodes : run'.nodes = run.nodes ++ [record] := he.nodes
    have hmetadata : run'.metadata = run.metadata := he.metadata
    simpa [Run.addFailure, hnodes, hmetadata, Verdict.status] using hsnoc
  isOpen := he.open h.isOpen

/-- When the walk is halted, or over. -/
structure Quits (c : Company World) (d : Driver) (first run : Run) (story : Story)
    (halt : Option Halt) (s : World) : Prop extends Told c d first run story where
  isOpen : run.Open
  reason : halt = some .cancelled ∧ (s.store.isFired d.token = true ∨ run.status = .cancelled) ∨
    Reason c d run story s.now halt

namespace Driver

variable {always : World → Prop}

theorem holds_relateVisit (hh : d.Hands c always first) (id : String)
    (h : Orderly c d first run story) {s : World} (hs : always s) :
    (d.relateVisit (Graph.ofWorkflow d.workflow) id (run, story)).Holds c always
      (fun (a, onward) s => always s ∧
        match onward with
        | .follow _ => Orderly c d first a.1 a.2 ∧ (c.Punctual → d.isUp s.now = false)
        | .halt reason => Quits c d first a.1 a.2 (some reason) s) s := by
  refine holds_bind.mpr (holds_read hs ?_)
  cases hc : (s.store.isFired d.token || run.status == .cancelled) with
  | true =>
    refine holds_done hs ⟨hs, h.toTold, h.isOpen, Or.inl ⟨rfl, ?_⟩⟩
    simpa using hc
  | false =>
    refine holds_bind.mpr (holds_read hs ?_)
    have hlate : d.deadline.any (· ≤ s.now) = d.isUp s.now := rfl
    rw [hlate]
    cases hup : d.isUp s.now with
    | true =>
      have hd : d.deadline.isSome = true := isSome_of_isUp hup
      have hstop := h.judged.stopped h.attested.length_eq
      have hreason : Reason c d run story s.now (some .timedOut) :=
        .timedOut hd hstop (Or.inl rfl) fun _ => hup
      exact holds_done hs ⟨hs, h.toTold, h.isOpen, Or.inr hreason⟩
    | false =>
      simp only [Bool.false_eq_true, if_false]
      cases hnode : (Graph.ofWorkflow d.workflow).node? id with
      | none => exact holds_done hs ⟨hs, h, fun _ => hup⟩
      | some node =>
        obtain ⟨hmem, rfl⟩ := Graph.node?_some hnode
        have hmem' : node ∈ d.workflow.nodes := firstNodes_subset [] _ hmem
        refine holds_bind.mpr ((holds_tellNode hh hmem' h.id h.recorded hs hup).and_now.mono ?_)
        rintro ⟨⟨run', verdict⟩, trials⟩ s' ⟨⟨record, hattests, hrecorded, he, hfired, hclock⟩, hs'⟩
        have htold := h.toTold.snoc hattests hrecorded he
        have hopen : run'.Open := he.open h.isOpen
        have hstop : Stopped d.workflow.settings run' (story ++ [⟨node, verdict, trials⟩])
            [⟨node, verdict, trials⟩] :=
          Judged.stop (he.metadata ▸ h.judged) h.attested.length_eq he.nodes
        have hintime : c.Punctual → verdict.Decides → d.isUp s'.now = false :=
          fun hp hv => (hattests.isUp (hclock hp)).2 hp hv
        cases verdict with
        | completed output =>
          have horderly := h.completed hattests hrecorded he rfl
          exact holds_done hs' ⟨hs', horderly, fun hp => hintime hp trivial⟩
        | failed error =>
          dsimp only
          by_cases hmode : d.workflow.settings.errorHandling = .goOn
          · rw [if_pos (by simpa using hmode)]
            have horderly := h.failed hattests hrecorded he hmode rfl
            exact holds_done hs' ⟨hs', horderly, fun hp => hintime hp trivial⟩
          · rw [if_neg (by simpa using hmode)]
            have hreason := Reason.failed hmode hstop rfl fun hp => hintime hp trivial
            exact holds_done hs' ⟨hs', htold, hopen, Or.inr hreason⟩
        | cancelled => exact holds_done hs' ⟨hs', htold, hopen, Or.inl ⟨rfl, Or.inl (hfired rfl)⟩⟩
        | timedOut =>
          obtain ⟨now, -, hup', -⟩ := hattests.ended
          have hreason := Reason.timedOut (isSome_of_isUp (hup' rfl)) hstop (Or.inr ⟨_, rfl, rfl⟩)
            fun hp => (hattests.isUp (hclock hp)).1 rfl
          exact holds_done hs' ⟨hs', htold, hopen, Or.inr hreason⟩

/-! ## The end -/

/-- The driver hands in the record of a run that it has closed, and what comes
back is that or cancelled. -/
theorem holds_close (hh : d.Hands c always first) (h : Automation.Told c d first run story)
    {s : World} (hs : always s) (halt : Option Halt) (hid : run'.id = run.id)
    (hnodes : run'.nodes = run.nodes) (hcontext : run'.context = run.context)
    (hreason : run'.status ≠ .cancelled → Reason c d run' story s.now halt ∧
      run'.completedAt = some (.reading s.now) ∧ run'.status = Halt.status halt ∧
      run'.error = Halt.error? d.workflow.settings halt) :
    (save run').Holds c always (fun r s' => Closed c d first r story s') s := by
  have htold := h.congr hid hnodes hcontext
  refine (holds_save hh htold.recorded htold.id hs).mono ?_
  rintro r s' ⟨he, -, hclock⟩
  refine ⟨htold.echoes he, fun hstatus => ?_⟩
  rcases he.same with hc | rfl
  · exact absurd hc hstatus
  · obtain ⟨hr, hat, hst, herror⟩ := hreason hstatus
    exact ⟨s.now, halt, hr, hat, hst, herror, fun hp => (hclock hp).symm⟩

/-- Or that of a run that it has cancelled. -/
theorem holds_close_cancelled (hh : d.Hands c always first)
    (h : Automation.Told c d first run story) (hopen : run.Open) {s : World} (hs : always s) :
    (save (run.cancel s.now)).Holds c always (fun r s' => Closed c d first r story s') s := by
  have hstatus : (run.cancel s.now).status = .cancelled := by
    rcases hopen with ho | ⟨ho, -⟩
    · rw [Run.cancel_of_terminal (by rw [ho]; rfl), ho]
    · rw [Run.cancel_of_live (by rw [ho]; rfl)]
      rfl
  exact holds_close hh h hs none (run.cancel_id s.now) (run.cancel_nodes s.now)
    (run.cancel_context s.now) fun hne => absurd hstatus hne

/-- The driver closes the record of the run. -/
theorem holds_conclude (hh : d.Hands c always first) {halt : Option Halt} {s : World}
    (h : Quits c d first run story halt s) (hs : always s) :
    (d.conclude run halt).Holds c always (fun run' s' => Closed c d first run' story s') s := by
  have hcancel := holds_close_cancelled hh h.toTold h.isOpen hs
  refine holds_bind.mpr (holds_read hs ?_)
  cases halt with
  | none =>
    have hreason := h.reason.resolve_left (by simp)
    refine holds_bind.mpr (holds_read hs ?_)
    split
    · exact hcancel
    · next hc =>
      have hlive := h.isOpen.resolve_left fun ho => hc (by simp [ho])
      exact holds_close hh h.toTold hs _ rfl rfl rfl fun _ =>
        ⟨hreason.congr rfl rfl, rfl, rfl, hlive.2⟩
  | some reason =>
    cases reason with
    | failed node error =>
      have hreason := h.reason.resolve_left (by simp)
      exact holds_close hh h.toTold hs _ rfl rfl rfl fun _ => ⟨hreason.congr rfl rfl, rfl, rfl, rfl⟩
    | timedOut =>
      have hreason := h.reason.resolve_left (by simp)
      exact holds_close hh h.toTold hs _ rfl rfl rfl fun _ => ⟨hreason.congr rfl rfl, rfl, rfl, rfl⟩
    | cancelled =>
      refine holds_bind.mpr (holds_read hs ?_)
      have hc : (s.store.isFired d.token || run.status == .cancelled) = true := by
        rcases h.reason with ⟨-, hc⟩ | hr
        · simpa using hc
        · cases hr
      rw [if_pos hc]
      exact hcancel

end Driver

/-! ## Whole runs -/

/-- A run that was set off and has not begun to be driven. -/
structure Run.Fresh (run : Run) : Prop where
  nodes : run.nodes = []
  failedNodes : run.metadata.failedNodes = []
  status : run.status = .running
  error : run.error = none

/-- A run that is set off in a state. -/
structure Engine.SetsOff (e : Engine) (w : Workflow) (payload : Json.Value) (options : RunOptions)
    (s : World) (run : Run) : Prop where
  id : run.id = s.nextRun
  nodes : run.nodes = []
  context : run.context =
    Context.seed w payload options.overrides e.config.environment (.reading s.now)

/-- Setting a run off: what its entry and its hand-in keep holds afterwards. -/
theorem Engine.holds_prepare {always inv : World → Prop} {e : Engine} {w : Workflow}
    {payload : Json.Value} {options : RunOptions} {s : World} (hnow : ∀ s', inv s' → always s')
    (hlock : ∀ s' s'', inv s' → c.others none s' s'' → inv s'')
    (hentry : ∀ s' run, e.SetsOff w payload options s run → inv s' →
      inv (s'.addRun run).2 ∧ inv (s'.saveRun run).2) (hs : inv s) :
    (e.prepare w payload options).Holds c always
      (fun r s' => inv s' ∧ e.SetsOff w payload options s r.1) s := by
  have hs' := hnow s hs
  unfold prepare
  refine holds_bind.mpr (holds_read hs' (holds_bind.mpr (holds_read hs' (holds_bind.mpr ?_))))
  generalize hrun : Run.start w s.nextRun payload _ options.source s.now = run
  have hoff : e.SetsOff w payload options s run := hrun ▸ ⟨rfl, rfl, rfl⟩
  intro s₁ ho
  have hs₁ := hlock s s₁ hs ho
  have hs₂ := (hentry s₁ run hoff hs₁).1
  refine ⟨hnow s₁ hs₁, holds_done (hnow _ hs₂) ?_⟩
  cases w.isValid with
  | true => exact holds_done (hnow _ hs₂) ⟨hs₂, hoff⟩
  | false =>
    simp only [Bool.false_eq_true, if_false]
    generalize hfailed : Run.fail run _ s.now = failed
    have hoff' : e.SetsOff w payload options s failed :=
      hfailed ▸ ⟨hoff.id, hoff.nodes, hoff.context⟩
    refine holds_bind.mpr ?_
    intro s₃ ho₃
    have hs₃ := hlock _ s₃ hs₂ ho₃
    have hs₄ := (hentry s₃ failed hoff' hs₃).2
    have he : (s₃.saveRun failed).1.Echoes failed := Store.save_echoes s₃.store failed
    refine ⟨hnow s₃ hs₃, holds_done (hnow _ hs₄) (holds_done (hnow _ hs₄) ⟨hs₄, ?_⟩)⟩
    exact ⟨he.id.trans hoff'.id, he.nodes.trans hoff'.nodes, he.context.trans hoff'.context⟩

/-- A run of a valid workflow is fresh when it is set off. -/
theorem Engine.always_prepare_fresh {w : Workflow} (hw : w.isValid = true) (e : Engine)
    (payload : Json.Value) (options : RunOptions) :
    (e.prepare w payload options).Always fun r => r.1.Fresh := by
  unfold prepare
  simp only [hw, if_true]
  exact fun _ _ _ => ⟨rfl, rfl, rfl, rfl⟩

/-- A run of a workflow that is not valid has failed when it is set off, unless
it was cancelled. -/
theorem Engine.always_prepare_failed {w : Workflow} (hw : w.isValid = false) (e : Engine)
    (payload : Json.Value) (options : RunOptions) :
    (e.prepare w payload options).Always fun r => r.1.nodes = [] ∧ (r.1.status = .cancelled ∨
      r.1.status = .failed ∧ r.1.error = some ("Workflow validation failed: " ++ w.summary)) := by
  unfold prepare
  simp only [hw, Bool.false_eq_true, if_false]
  intro s _ _ s₁
  generalize hfailed : Run.fail _ _ s.now = failed
  have he : (s₁.saveRun failed).1.Echoes failed := Store.save_echoes s₁.store failed
  refine ⟨by rw [he.nodes, ← hfailed]; rfl, ?_⟩
  rcases he.same with hc | heq
  · exact Or.inl hc
  · rw [heq, ← hfailed]
    exact Or.inr ⟨rfl, rfl⟩

theorem Run.Fresh.orderly (h : run.Fresh) : Orderly c d run run [] where
  toTold := .start h.nodes
  judged := by
    rw [h.nodes, h.failedNodes]
    exact ⟨by simp, rfl, by simp⟩
  isOpen := Or.inr ⟨h.status, h.error⟩

/-- The walk of a valid workflow begins with a node. -/
theorem Graph.exists_start {w : Workflow} (hw : w.isValid = true) :
    ∃ id rest n, (ofWorkflow w).starts = id :: rest ∧ (ofWorkflow w).size = n + 1 := by
  obtain ⟨node, hnode⟩ := List.exists_mem_of_ne_nil _ (Workflow.isValid_iff.mp hw).2.2.2.2.1
  have hstart : node.id ∈ (ofWorkflow w).starts := (mem_starts hw).mpr ⟨node, hnode, rfl⟩
  obtain ⟨id, rest, hstarts⟩ := List.exists_cons_of_ne_nil (List.ne_nil_of_mem hstart)
  have hsize : 0 < (ofWorkflow w).size := by
    rw [← length_ids]
    exact List.length_pos_of_mem (starts_subset _ hstart)
  exact ⟨id, rest, _, hstarts, (Nat.succ_pred_eq_of_pos hsize).symm⟩

/-- The walk of a run comes to an end for a reason. -/
theorem Driver.holds_relateWalk {always : World → Prop} (hw : d.workflow.isValid = true)
    (hh : d.Hands c always run) (hfresh : run.Fresh) {s : World} (hs : always s) :
    (walk (d.relateVisit (Graph.ofWorkflow d.workflow)) (Graph.ofWorkflow d.workflow).size []
      (Graph.ofWorkflow d.workflow).starts (run, [])).Holds c always
        (fun (a, halt) s => always s ∧ Quits c d run a.1 a.2 halt s) s := by
  obtain ⟨id, rest, n, hstarts, hsize⟩ := Graph.exists_start hw
  rw [hstarts, hsize, walk_unmarked _ (by simp)]
  -- the time may be up before the first visit, and then that one halts the run
  refine holds_bind.mpr ((holds_relateVisit hh id hfresh.orderly hs).mono ?_)
  rintro ⟨a, onward⟩ s₁ ⟨hs₁, hon⟩
  cases onward with
  | halt reason => exact holds_done hs₁ ⟨hs₁, hon⟩
  | follow targets =>
    refine holds_walk (fun a s => always s ∧ Orderly c d run a.1 a.2 ∧
      (c.Punctual → d.isUp s.now = false)) ?_ ?_ ?_ _ _ _ _ _ ⟨hs₁, hon⟩
    · exact fun _ _ h => h.1
    · rintro a s ⟨hs, ho, hup⟩
      exact ⟨hs, ho.toTold, ho.isOpen, Or.inr (.through ho.judged hup)⟩
    · rintro id ⟨run', story⟩ s ⟨hs, ho, -⟩
      refine (holds_relateVisit hh id ho hs).mono ?_
      rintro ⟨a, onward⟩ s' ⟨hs', hon⟩
      cases onward with
      | follow targets => exact ⟨hs', hon⟩
      | halt reason => exact ⟨hs', hs', hon⟩

/-- **How a run is closed.** The run that comes out was told, and unless it
was cancelled, it is closed for a reason. -/
theorem Engine.holds_relate {always : World → Prop} {w : Workflow} (hw : w.isValid = true)
    (e : Engine) {token : Nat} (hfresh : run.Fresh) {s : World} (hs : always s)
    (hh : (e.driver w token s.now).Hands c always run) :
    (e.relate w run token).Holds c always
      (fun (run', story) s' => Closed c (e.driver w token s.now) run run' story s') s := by
  unfold relate
  rw [if_neg (by rw [hfresh.status]; exact Bool.false_ne_true)]
  refine holds_bind.mpr (holds_read hs ?_)
  dsimp only
  generalize hd : e.driver w token s.now = d at hh ⊢
  obtain rfl : d.workflow = w := by rw [← hd]; rfl
  refine holds_bind.mpr ((Driver.holds_relateWalk hw hh hfresh hs).mono ?_)
  rintro ⟨⟨run', story⟩, halt⟩ s₁ ⟨hs₁, hquits⟩
  refine holds_bind.mpr ((Driver.holds_conclude hh hquits hs₁).and_now.mono ?_)
  rintro run'' s₂ ⟨hclosed, hs₂⟩
  exact holds_done hs₂ hclosed

end Automation
