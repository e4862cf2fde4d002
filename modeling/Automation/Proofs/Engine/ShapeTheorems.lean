/-
Automation.Proofs.Engine.ShapeTheorems — the shapes in which a run ends.

A run that has ended and was not cancelled is refused, completed, stopped
or late. The status, the error, the list of failed nodes and the records of
the nodes are written in different places; each shape says how they agree
(`Run.HasShape`), and no record fits two of them (`HasShape.unique`).

A refused run is one of a workflow that is not valid. The other shapes
belong to the reasons for which a driver closes a record (`Reason`), one to
each (`Reason.hasShape`). `runs_end_in_one_shape` puts it together for the
runs of all workflows, in any company in which fired tokens stay fired.
-/
import Automation.Proofs.Engine.ClosingTheorems
import Automation.Proofs.Engine.RequestTheorems

namespace Automation

open Process
open Automation.Json (Value)

variable {c : Company World} {d : Driver} {first run : Run} {w : Workflow} {story : Story}

/-! ## Shapes -/

/-- How a run stands at its end. -/
inductive Shape where
  /-- The workflow is not valid. -/
  | refused
  | completed
  /-- A node has failed, and that ended the run. -/
  | stopped
  /-- The time of the run was up. -/
  | late
  deriving DecidableEq, Repr, Inhabited

/-- The nodes of these records have completed or failed. -/
def NodeRun.AllDecided (records : List NodeRun) : Prop :=
  ∀ r ∈ records, r.status = .completed ∨ r.status = .failed

/-- The run has noted the failures among these records, and there are none
unless it goes on after failures. -/
structure Run.NotesFailures (run : Run) (settings : Settings) (records : List NodeRun) : Prop where
  failures : run.metadata.failedNodes = NodeRun.failures records
  strict : settings.errorHandling ≠ .goOn → run.metadata.failedNodes = []

/-- The nodes that were cut off by the deadline. -/
def Story.cutOff (story : Story) : List String :=
  (story.filter fun chapter => chapter.verdict matches .timedOut).map (·.node.id)

/-- What a record of each shape says. -/
def Run.HasShape (run : Run) (w : Workflow) (story : Story) : Shape → Prop
  | .refused =>
    w.isValid = false ∧ run.status = .failed ∧
      run.error = some ("Workflow validation failed: " ++ w.summary) ∧
      run.nodes = [] ∧ story = []
  | .completed =>
    run.status = .completed ∧ run.error = none ∧ NodeRun.AllDecided run.nodes ∧
      run.NotesFailures w.settings run.nodes
  | .stopped =>
    w.settings.errorHandling ≠ .goOn ∧ run.status = .failed ∧ run.metadata.failedNodes = [] ∧
      ∃ before last error, run.nodes = before ++ [last] ∧
        (∀ r ∈ before, r.status = .completed) ∧ last.status = .failed ∧ last.error = some error ∧
        run.error = some ("Node '" ++ last.nodeId ++ "' failed: " ++ error)
  | .late =>
    run.status = .failed ∧ ∃ limit, w.settings.timeout = some limit ∧
      run.error = some ("Workflow timed out after " ++ toString limit ++ " ms") ∧
      NodeRun.AllDecided run.nodes ∧
      -- the node that the deadline found in hand is the last one
      ∃ before inHand, run.nodes = before ++ inHand ∧ inHand.length ≤ 1 ∧
        inHand.map (·.nodeId) = story.cutOff ∧
        (∀ r ∈ inHand, r.status = .failed ∧ r.error = run.error) ∧
        run.NotesFailures w.settings before

/-- Texts that differ in one of their first letters are different. -/
theorem String.append_ne {a b : String} (n : Nat) (s t : String) (ha : n ≤ a.toList.length)
    (hb : n ≤ b.toList.length) (h : a.toList.take n ≠ b.toList.take n) : a ++ s ≠ b ++ t := by
  intro heq
  have htake := congrArg (fun text => text.toList.take n) heq
  simp only [String.toList_append, List.take_append_of_le_length ha,
    List.take_append_of_le_length hb] at htake
  exact h htake

/-- How the error of a run of this shape begins. -/
def Shape.opening? : Shape → Option String
  | .refused => some "Workflow validation failed: "
  | .completed => none
  | .stopped => some "Node '"
  | .late => some "Workflow timed out after "

theorem Run.HasShape.error {shape : Shape} (h : run.HasShape w story shape) :
    ∃ rest, run.error = shape.opening?.map (· ++ rest) := by
  cases shape with
  | refused => exact ⟨_, h.2.2.1⟩
  | completed => exact ⟨"", h.2.1⟩
  | stopped =>
    obtain ⟨-, -, -, -, last, error, -, -, -, -, herror⟩ := h
    rw [String.append_assoc, String.append_assoc] at herror
    exact ⟨_, herror⟩
  | late =>
    obtain ⟨-, limit, -, herror, -⟩ := h
    rw [String.append_assoc] at herror
    exact ⟨_, herror⟩

/-- The error tells the shape. -/
theorem Run.HasShape.unique {shape shape' : Shape} (h : run.HasShape w story shape)
    (h' : run.HasShape w story shape') : shape = shape' := by
  obtain ⟨s, hs⟩ := h.error
  obtain ⟨t, ht⟩ := h'.error
  have heq := hs.symm.trans ht
  have hrefused : ∀ s t, "Workflow validation failed: " ++ s ≠ "Workflow timed out after " ++ t :=
    fun s t => String.append_ne 10 s t (by decide) (by decide) (by decide)
  have hstopped : ∀ s t, "Node '" ++ s ≠ "Workflow validation failed: " ++ t :=
    fun s t => String.append_ne 1 s t (by decide) (by decide) (by decide)
  have hstopped' : ∀ s t, "Node '" ++ s ≠ "Workflow timed out after " ++ t :=
    fun s t => String.append_ne 1 s t (by decide) (by decide) (by decide)
  cases shape <;> cases shape' <;>
    simp [Shape.opening?, hrefused, hstopped, hstopped', fun s t => (hrefused s t).symm,
      fun s t => (hstopped s t).symm, fun s t => (hstopped' s t).symm] at heq ⊢

/-! ## From reasons to shapes -/

/-- Every record is attested by a chapter. -/
theorem NodeRun.exists_chapter {records : List NodeRun}
    (h : List.Forall₂ (NodeRun.Attests c d) records story) :
    ∀ r ∈ records, ∃ chapter ∈ story, r.Attests c d chapter := by
  induction h with
  | nil => simp
  | cons hattests _ ih =>
    intro r hr
    rcases List.mem_cons.mp hr with rfl | hr
    · exact ⟨_, List.mem_cons_self, hattests⟩
    · obtain ⟨chapter, hchapter, ha⟩ := ih r hr
      exact ⟨chapter, List.mem_cons_of_mem _ hchapter, ha⟩

/-- What stands before the last part of the story, and what is its own. -/
theorem Stopped.split {settings : Settings} {last : Story} (h : Stopped settings run story last)
    (ha : List.Forall₂ (NodeRun.Attests c d) run.nodes story) :
    ∃ before records rest, story = before ++ last ∧ run.nodes = records ++ rest ∧
      List.Forall₂ (NodeRun.Attests c d) records before ∧
      List.Forall₂ (NodeRun.Attests c d) rest last ∧
      Judged settings records before run.metadata.failedNodes := by
  obtain ⟨before, records, rest, hstory, hnodes, hlen, hj⟩ := h
  rw [hstory, hnodes] at ha
  refine ⟨before, records, rest, hstory, hnodes, ?_, ?_, hj⟩
  · have htake := List.forall₂_take_append _ _ _ ha
    rwa [← hlen, List.take_left] at htake
  · have hdrop := List.forall₂_drop_append _ _ _ ha
    rwa [← hlen, List.drop_left] at hdrop

namespace Judged

variable {settings : Settings} {records : List NodeRun} {failed : List String}
  (h : Judged settings records story failed)
  (ha : List.Forall₂ (NodeRun.Attests c d) records story)

include h ha

theorem allDecided : NodeRun.AllDecided records := by
  intro r hr
  obtain ⟨chapter, hchapter, hattests⟩ := NodeRun.exists_chapter ha r hr
  have hv := h.decided chapter hchapter
  rw [hattests.status]
  cases hverdict : chapter.verdict with
  | completed output => exact Or.inl rfl
  | failed error => exact Or.inr rfl
  | cancelled => rw [hverdict] at hv; cases hv
  | timedOut => rw [hverdict] at hv; cases hv

theorem completed (hmode : settings.errorHandling ≠ .goOn) :
    ∀ r ∈ records, r.status = .completed := by
  intro r hr
  obtain ⟨chapter, hchapter, hattests⟩ := NodeRun.exists_chapter ha r hr
  obtain ⟨output, hv⟩ := h.strict hmode chapter hchapter
  rw [hattests.status, hv]
  rfl

theorem failed_eq_nil (hmode : settings.errorHandling ≠ .goOn) : failed = [] := by
  rw [h.failures]
  exact NodeRun.failures_of_completed (h.completed ha hmode)

omit ha in
theorem cutOff : story.cutOff = [] := by
  simp only [Story.cutOff, List.map_eq_nil_iff, List.filter_eq_nil_iff]
  intro chapter hchapter
  have hv := h.decided chapter hchapter
  cases hverdict : chapter.verdict <;> simp_all [Verdict.Decides]

end Judged

theorem Story.cutOff_append (story story' : Story) :
    Story.cutOff (story ++ story') = story.cutOff ++ Story.cutOff story' := by
  simp [cutOff]

/-- The records of the node that the deadline found in hand, if there was one. -/
theorem Story.inHand {rest : List NodeRun} {last : Story}
    (h : List.Forall₂ (NodeRun.Attests c d) rest last)
    (hlast : last = [] ∨ ∃ chapter, last = [chapter] ∧ chapter.verdict = .timedOut) :
    rest.length ≤ 1 ∧ rest.map (·.nodeId) = Story.cutOff last ∧
      ∀ r ∈ rest, r.status = .failed ∧ r.error = some d.workflow.settings.timeoutMessage := by
  rcases hlast with rfl | ⟨chapter, rfl, hv⟩
  · obtain rfl := List.forall₂_nil_right_iff.mp h
    simp [Story.cutOff]
  · obtain ⟨record, rest, hattests, hnil, rfl⟩ := List.forall₂_cons_right_iff.mp h
    obtain rfl := List.forall₂_nil_right_iff.mp hnil
    have hstatus := hattests.status
    have herror := hattests.error
    rw [hv] at hstatus herror
    refine ⟨Nat.le_refl 1, by simp [Story.cutOff, hv, hattests.nodeId], ?_⟩
    intro r hr
    obtain rfl := List.mem_singleton.mp hr
    exact ⟨hstatus, herror⟩

/-- The shape of a run that was halted for this reason, if for any. -/
def Halt.shape : Option Halt → Shape
  | none => .completed
  | some (.failed _ _) => .stopped
  | some _ => .late

/-- **A reason makes a shape.** A run that is closed for a reason has the shape
of the reason. -/
theorem Reason.hasShape {now : Nat} {halt : Option Halt} (h : Reason c d run story now halt)
    (ha : List.Forall₂ (NodeRun.Attests c d) run.nodes story)
    (hdeadline : d.deadline.isSome = true → d.workflow.settings.timeout.isSome = true)
    (hs : run.status = Halt.status halt)
    (he : run.error = Halt.error? d.workflow.settings halt) :
    run.HasShape d.workflow story (Halt.shape halt) := by
  cases h with
  | through hj => exact ⟨hs, he, hj.allDecided ha, hj.failures, hj.failed_eq_nil ha⟩
  | failed hmode hstop hv =>
    obtain ⟨before, records, rest, rfl, hnodes, hbefore, hlast, hj⟩ := hstop.split ha
    obtain ⟨last, rest, hattests, hrest, rfl⟩ := List.forall₂_cons_right_iff.mp hlast
    obtain rfl := List.forall₂_nil_right_iff.mp hrest
    have hls := hattests.status
    have hle := hattests.error
    rw [hv] at hls hle
    refine ⟨hmode, hs, hj.failed_eq_nil hbefore hmode, records, last, _, hnodes,
      hj.completed hbefore hmode, hls, hle, ?_⟩
    rw [he, hattests.nodeId]
    rfl
  | @timedOut last hd hstop hlast =>
    obtain ⟨before, records, rest, rfl, hnodes, hbefore, hrest, hj⟩ := hstop.split ha
    obtain ⟨limit, hlimit⟩ := Option.isSome_iff_exists.mp (hdeadline hd)
    have hmessage : d.workflow.settings.timeoutMessage =
        "Workflow timed out after " ++ toString limit ++ " ms" := by
      unfold Settings.timeoutMessage
      rw [hlimit]
      rfl
    have herror : run.error = some d.workflow.settings.timeoutMessage := he
    obtain ⟨hlength, hcutOff, hfailed⟩ := Story.inHand hrest hlast
    have hdecided : NodeRun.AllDecided run.nodes := by
      intro r hr
      rw [hnodes, List.mem_append] at hr
      rcases hr with hr | hr
      · exact hj.allDecided hbefore r hr
      · exact Or.inr (hfailed r hr).1
    refine ⟨hs, limit, hlimit, hmessage ▸ herror, hdecided, records, rest, hnodes, hlength, ?_, ?_,
      hj.failures, hj.failed_eq_nil hbefore⟩
    · rw [Story.cutOff_append, hj.cutOff, List.nil_append]
      exact hcutOff
    · exact fun r hr => ⟨(hfailed r hr).1, (hfailed r hr).2.trans herror.symm⟩

/-- A run is late if it is closed when its time is up, and only then. -/
theorem Reason.shape_eq_late {now : Nat} {halt : Option Halt} (h : Reason c d run story now halt)
    (hp : c.Punctual) : Halt.shape halt = .late ↔ d.isUp now = true := by
  cases h with
  | through _ hup => simp [Halt.shape, hup hp]
  | failed _ _ _ hup => simp [Halt.shape, hup hp]
  | timedOut _ _ _ hup => simp [Halt.shape, hup hp]

/-! ## Whole runs -/

/-- The company in which fired tokens stay fired; anything else may happen. -/
def calm : Company World where
  signals := World.signals
  others _ s s' := s.TokensStay s'
  others_refl _ _ := fun _ => id
  others_trans _ _ _ _ h h' := fun token hf => h' token (h token hf)

theorem Driver.hands_calm (d : Driver) (first : Run) : d.Hands calm (fun _ => True) first where
  signals := rfl
  others _ _ _ _ _ _ := trivial
  services _ _ _ := trivial
  tokens _ _ _ ho := ho
  save _ _ _ _ _ := trivial

/-- A run that has ended is not driven. -/
theorem Engine.drive_of_terminal (e : Engine) (w : Workflow) {run : Run}
    (h : run.status.isTerminal = true) (token : Nat) : e.drive w run token = done run := by
  unfold drive
  rw [if_pos h]
  rfl

theorem Engine.relate_of_terminal (e : Engine) (w : Workflow) {run : Run}
    (h : run.status.isTerminal = true) (token : Nat) : e.relate w run token = done (run, []) := by
  unfold relate
  rw [if_pos h]
  rfl

/-- The others leave the record and the token of a run alone. -/
structure World.Spares (i : String) (k : Nat) (s s' : World) : Prop where
  now : s.now ≤ s'.now
  entry : s'.store.entry? i = s.store.entry? i
  fired : s'.store.isFired k = s.store.isFired k

/-- A run that nobody cancels does not end as cancelled. -/
theorem Engine.status_ne_cancelled (e : Engine) {payload : Value} {options : RunOptions}
    {s s₁ s₂ s₃ : World} {token : Nat} {run' : Run} (hfree : s.Free)
    (hprepare : (e.prepare w payload options).Ends World.signals World.Around s (run, token) s₁)
    (hspared : s₁.Spares run.id token s₂)
    (hdrive : (e.drive w run token).Ends World.signals (World.Spares run.id token) s₂ run' s₃) :
    run'.status ≠ .cancelled := by
  have hquiet : ∀ {place s s'}, World.Spares run.id token s s' →
      Meanwhile run.id token place s none s' none :=
    fun h => .quiet h.now h.entry h.fired
  have hprepared := e.keeps_prepare w payload options hfree
  obtain ⟨-, hready⟩ := hprepare.of_keeps rfl (fun _ _ _ ho => ho) hprepared
  have hbetween : Meanwhile run.id token .start s₁ none s₂ none := hquiet hspared
  have hready' := hready.meanwhile hbetween (by simp)
  have hfinal := hdrive.of_keeps rfl (fun _ _ _ ho => hquiet ho) (e.keeps_drive w hready')
  obtain ⟨r, hr, hlive, -⟩ := hfinal.known.entry
  obtain rfl : run' = r := congrArg StoredRun.run (Option.some.inj (hfinal.stored.symm.trans hr))
  exact hlive rfl

/-- Setting off and driving a run of a workflow that is not valid takes no
executor, and calls no collaborator. -/
theorem Engine.execute_of_invalid (hw : w.isValid = false) (e : Engine) (payload : Value)
    (options : RunOptions) :
    (∀ executors, { e with executors }.execute w payload options = e.execute w payload options) ∧
    (e.execute w payload options).Does fun s s' => s'.services = s.services := by
  have hterminal : (e.prepare w payload options).Always fun r => r.1.status.isTerminal = true := by
    refine (e.always_prepare_failed hw payload options).mono ?_
    rintro r ⟨-, hs | ⟨hs, -⟩⟩
    · rw [hs]; rfl
    · rw [hs]; rfl
  constructor
  · intro executors
    refine bind_congr_always ?_ hterminal
    rintro ⟨run, token⟩ h
    dsimp only at h ⊢
    rw [drive_of_terminal _ w h, drive_of_terminal e w h]
  · refine Does.bind ?_ (e.does_prepare ?_ ?_ ?_ w payload options) hterminal
    · rintro ⟨run, token⟩ h
      dsimp only at h ⊢
      rw [drive_of_terminal e w h]
      trivial
    · exact fun _ => rfl
    · exact fun _ _ => rfl
    · exact fun _ _ => rfl

/-- **The shapes of runs.** A run is set off and driven at any time later,
in whatever company in which fired tokens stay fired and however its
executors answer. When it has ended and was not cancelled, no node is left
running and its record has exactly one shape. No collaborator is called for
a refused run, and a run that nobody cancels does not end as cancelled. -/
theorem runs_end_in_one_shape (e : Engine) (w : Workflow) (payload : Value) (options : RunOptions) :
    (∀ run token, Prod.fst <$> e.relate w run token = e.drive w run token) ∧
    (∀ run token s s₁, Course calm (e.prepare w payload options) s (done (run, token)) s₁ →
      ∀ run' story s₂ s₃, Course calm (e.relate w run token) s₂ (done (run', story)) s₃ →
        run'.status ≠ .cancelled →
          (∀ r ∈ run'.nodes, r.status ≠ .running) ∧ ∃! shape, run'.HasShape w story shape) ∧
    (w.isValid = false →
      (∀ executors, { e with executors }.execute w payload options = e.execute w payload options) ∧
      (e.execute w payload options).Does fun s s' => s'.services = s.services) ∧
    ∀ run token s s₁, s.Free →
      (e.prepare w payload options).Ends World.signals World.Around s (run, token) s₁ →
      ∀ run' s₂ s₃, s₁.Spares run.id token s₂ →
        (e.drive w run token).Ends World.signals (World.Spares run.id token) s₂ run' s₃ →
        run'.status ≠ .cancelled := by
  refine ⟨e.fst_relate w, ?_, fun hw => e.execute_of_invalid hw payload options, ?_⟩
  · intro run token s s₁ hprepare run' story s₂ s₃ hrelate hstatus
    cases hw : w.isValid with
    | false =>
      obtain ⟨hnodes, hfailed⟩ := hprepare.of_always (e.always_prepare_failed hw payload options)
      have hterminal : run.status.isTerminal = true := by
        rcases hfailed with hs | ⟨hs, -⟩ <;> rw [hs] <;> rfl
      rw [e.relate_of_terminal w hterminal] at hrelate
      have hsame : (done (run, []) : Process World (Run × Story)).Always (· = (run, [])) := rfl
      obtain ⟨rfl, rfl⟩ := Prod.mk.inj (hrelate.of_always hsame)
      obtain ⟨hs, herror⟩ := hfailed.resolve_left hstatus
      have hshape : run.HasShape w [] .refused := ⟨hw, hs, herror, hnodes, rfl⟩
      refine ⟨?_, .refused, hshape, fun _ h => h.unique hshape⟩
      rw [show run.nodes = [] from hnodes]
      simp
    | true =>
      have hfresh := hprepare.of_always (e.always_prepare_fresh hw payload options)
      have hclosed := (hrelate.holds (e.holds_relate hw hfresh trivial (Driver.hands_calm _ run))).2
      obtain ⟨now, halt, hreason, -, hs, he, -⟩ := hclosed.reason hstatus
      have hshape := hreason.hasShape hclosed.attested (by simp [Engine.driver]) hs he
      refine ⟨?_, Halt.shape halt, hshape, fun _ h => h.unique hshape⟩
      intro r hr
      obtain ⟨chapter, -, hattests⟩ := NodeRun.exists_chapter hclosed.attested r hr
      rw [hattests.status]
      exact chapter.verdict.status_ne_running
  · intro run token s s₁ hfree hprepare run' s₂ s₃ hspared hdrive
    exact e.status_ne_cancelled hfree hprepare hspared hdrive

end Automation
