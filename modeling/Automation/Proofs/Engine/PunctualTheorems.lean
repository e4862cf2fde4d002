/-
Automation.Proofs.Engine.PunctualTheorems — runs and their deadlines, in
punctual company.

The clock of a `punctual` company stands still while a process stands at a
lock, and does not run past the instant that it waits for. In such company
a run with a limited time has ended when its deadline comes, or ends then
(`Engine.holds_relate_punctual`), and it `MeetsDeadline`:

* no node is started and no attempt begins at the deadline or after it;
* what an attempt comes to before the deadline counts;
* a run that comes to its deadline is late: it has failed with the text for
  that, the node that was in hand is recorded as failed with the same text,
  and it leaves nothing in the context.
-/
import Automation.Proofs.Engine.ShapeTheorems

namespace Automation

open Process
open Automation.Json (Value)

/-! ## Punctual company -/

/-- What the others do while a process stands at a lock, or at a wait: they do
not let the clock run past it. -/
structure World.Beside (place : Option Wait) (s s' : World) : Prop where
  tokens : s.TokensStay s'
  now : s.now ≤ s'.now
  lock : place = none → s'.now = s.now
  wait : ∀ wait t, place = some wait → wait.instant? = some t → s'.now ≤ max s.now t

namespace World.Beside

variable {place : Option Wait} {s s₁ s₂ : World}

/-- The clock stands still. -/
theorem of_now (htokens : s.TokensStay s₁) (hnow : s₁.now = s.now) : s.Beside place s₁ where
  tokens := htokens
  now := Nat.le_of_eq hnow.symm
  lock _ := hnow
  wait _ _ _ _ := hnow ▸ Nat.le_max_left _ _

theorem rfl : s.Beside place s :=
  .of_now (fun _ h => h) (Eq.refl _)

theorem trans (h : s.Beside place s₁) (h' : s₁.Beside place s₂) : s.Beside place s₂ where
  tokens token hf := h'.tokens token (h.tokens token hf)
  now := Nat.le_trans h.now h'.now
  lock hp := (h'.lock hp).trans (h.lock hp)
  wait wait t hp ht := by
    have hle := h.wait wait t hp ht
    have hle' := h'.wait wait t hp ht
    omega

/-- The clock jumps to an instant that is not later than what the process waits
for. -/
theorem setNow {wait : Wait} {now : Nat} (h : ∀ t, wait.instant? = some t → now ≤ t) (s : World) :
    s.Beside (some wait) { s with now := max s.now now } where
  tokens _ hf := hf
  now := Nat.le_max_left _ _
  lock hp := by cases hp
  wait wait' t hp ht := by
    cases hp
    have hle := h t ht
    show max s.now now ≤ max s.now t
    omega

end World.Beside

/-- The punctual company. -/
def punctual : Company World where
  signals := World.signals
  others := World.Beside
  others_refl _ _ := .rfl
  others_trans _ _ _ _ := .trans

theorem punctual_punctual : punctual.Punctual where
  lock _ _ ho := ho.lock rfl
  wait wait _ _ t ho ht := ho.wait wait t rfl ht

/-- Who waits with a deadline waits for an instant, which is not later. -/
theorem Wait.instant?_of_deadline {wait : Wait} {deadline : Nat}
    (h : wait.deadline = some deadline) : ∃ t, wait.instant? = some t ∧ t ≤ deadline := by
  unfold Wait.instant?
  rw [h]
  cases wait.due with
  | instant t => exact ⟨_, rfl, Nat.min_le_left _ _⟩
  | nothing => exact ⟨_, rfl, Nat.le_refl _⟩
  | run id => exact ⟨_, rfl, Nat.le_refl _⟩
  | never => exact ⟨_, rfl, Nat.le_refl _⟩

/-- A driver stands nowhere without its deadline. -/
theorem Driver.hands_punctual (d : Driver) (first : Run) {deadline : Nat}
    (hd : d.deadline = some deadline) : d.Hands punctual (·.now ≤ deadline) first where
  signals := rfl
  others place s s' hstands hs ho := by
    cases place with
    | none => exact (ho.lock rfl).symm ▸ hs
    | some wait =>
      have hdeadline : wait.deadline = some deadline := (hstands wait rfl).2.trans hd
      obtain ⟨t, ht, hle⟩ := Wait.instant?_of_deadline hdeadline
      have hwait := ho.wait wait t rfl ht
      have hmax : max s.now t ≤ deadline := Nat.max_le.mpr ⟨hs, hle⟩
      exact Nat.le_trans hwait hmax
  services _ _ h := h
  tokens _ _ _ ho := ho.tokens
  save _ _ h _ _ := h

/-! ## Deadlines -/

/-- What a record and its chapter say of the deadline. -/
structure NodeRun.Heeds (settings : Settings) (deadline : Nat) (record : NodeRun)
    (chapter : Chapter) : Prop where
  nodeId : record.nodeId = chapter.node.id
  status : record.status = chapter.verdict.status
  output : record.output = chapter.verdict.output?
  error : record.error = chapter.verdict.error? settings
  /-- The node is started before the deadline, -/
  started : ∃ now < deadline, record.startedAt = .reading now
  /-- and so is every attempt at it. -/
  began : ∀ trial ∈ chapter.trials, trial.began < deadline
  /-- It is given up for the deadline when that has come; else it ends before. -/
  ended : ∃ now, record.completedAt = some (.reading now) ∧
    (chapter.verdict = .timedOut → deadline ≤ now) ∧ (chapter.verdict.Decides → now < deadline)
  /-- What an attempt comes to before the deadline is what it was to come to. -/
  kept : ∀ trial ∈ chapter.trials, ∀ finish, trial.course.finish = some finish →
    trial.began + finish.lasts.getD 0 < deadline →
      trial.verdict = .ofEnding finish.ending ∨ trial.verdict = .cancelled
  /-- The verdict follows from the attempts; there are none without an executor. -/
  tried : Driver.Tried chapter.trials chapter.verdict ∨
    chapter.trials = [] ∧ ∃ error, chapter.verdict = .failed error

/-- What an attempt answers is what the node answers. -/
theorem NodeRun.Heeds.answered {settings : Settings} {deadline : Nat} {record : NodeRun}
    {chapter : Chapter} (h : record.Heeds settings deadline chapter) {trial : Trial}
    (htrial : trial ∈ chapter.trials) {output : Output} (ho : trial.verdict = .completed output) :
    record.status = .completed ∧ record.output = some output.value := by
  rcases h.tried with htried | ⟨hnone, -⟩
  · obtain ⟨hverdict, -⟩ := htried.of_answer htrial ho
    rw [h.status, h.output, hverdict]
    exact ⟨rfl, rfl⟩
  · rw [hnone] at htrial
    cases htrial

/-- A run that had to end by its deadline, and its story. -/
structure Run.MeetsDeadline (run : Run) (w : Workflow) (seed : Context) (story : Story)
    (deadline : Nat) (s : World) : Prop where
  chapters : List.Forall₂ (NodeRun.Heeds w.settings deadline) run.nodes story
  /-- Only nodes that complete leave anything in the context. -/
  context : run.context = story.context seed
  inTime : s.now ≤ deadline
  /-- It is late if it ends at its deadline, and only then. -/
  late : run.status ≠ .cancelled → run.completedAt = some (.reading s.now) ∧
    (s.now = deadline ↔ run.HasShape w story .late)

section

variable {d : Driver} {first run : Run} {story : Story} {deadline : Nat} {s : World}

theorem Driver.isUp_iff (hd : d.deadline = some deadline) {now : Nat} :
    d.isUp now = true ↔ deadline ≤ now := by
  simp [isUp, hd]

theorem Driver.not_isUp_iff (hd : d.deadline = some deadline) {now : Nat} :
    d.isUp now = false ↔ now < deadline := by
  simp [isUp, hd]

theorem NodeRun.Attests.heeds {record : NodeRun} {chapter : Chapter}
    (h : record.Attests punctual d chapter) (hd : d.deadline = some deadline) :
    record.Heeds d.workflow.settings deadline chapter where
  nodeId := h.nodeId
  status := h.status
  output := h.output
  error := h.error
  started := by
    obtain ⟨now, hnow, hup⟩ := h.started
    exact ⟨now, (Driver.not_isUp_iff hd).mp hup, hnow⟩
  began trial ht := (Driver.not_isUp_iff hd).mp (h.inTime trial ht).began
  ended := by
    obtain ⟨now, hnow, hlate, hintime⟩ := h.ended
    refine ⟨now, hnow, fun hv => (Driver.isUp_iff hd).mp (hlate hv), fun hv => ?_⟩
    exact (Driver.not_isUp_iff hd).mp (hintime punctual_punctual hv)
  kept trial ht finish hf hlt :=
    (h.inTime trial ht).kept punctual_punctual finish hf ((Driver.not_isUp_iff hd).mpr hlt)
  tried := h.tried.imp_right fun hnone => ⟨hnone.1, hnone.2.2⟩

/-- A run that is closed in punctual company. -/
theorem Closed.meetsDeadline (h : Closed punctual d first run story s)
    (hd : d.deadline = some deadline)
    (hlimited : d.workflow.settings.timeout.isSome = true) (hs : s.now ≤ deadline) :
    run.MeetsDeadline d.workflow first.context story deadline s where
  chapters := h.attested.imp fun _ _ ha => ha.heeds hd
  context := h.context
  inTime := hs
  late := by
    intro hstatus
    obtain ⟨now, halt, hreason, hat, hst, herr, hnow⟩ := h.reason hstatus
    obtain rfl := hnow punctual_punctual
    have hshape := hreason.hasShape h.attested (fun _ => hlimited) hst herr
    have hlate := (hreason.shape_eq_late punctual_punctual).trans (Driver.isUp_iff hd)
    refine ⟨hat, ?_⟩
    constructor
    · intro heq
      rw [← hlate.mpr (Nat.le_of_eq heq.symm)]
      exact hshape
    · intro hl
      exact Nat.le_antisymm hs (hlate.mp (hshape.unique hl))

end

/-! ## Driving -/

namespace Engine

variable {e : Engine} {w : Workflow} {limit : Nat} {s : World}

/-- **In punctual company** the clock does not come past the deadline of a run
while it is driven, and the run meets its deadline. -/
theorem holds_relate_punctual (hw : w.isValid = true) (hlimit : w.settings.timeout = some limit)
    {run : Run} (hfresh : run.Fresh) (token : Nat) :
    (e.relate w run token).Holds punctual (·.now ≤ s.now + limit)
      (fun (run', story) s' => run'.MeetsDeadline w run.context story (s.now + limit) s') s := by
  have hd : (e.driver w token s.now).deadline = some (s.now + limit) := by
    simp [driver, hlimit]
  have hs : s.now ≤ s.now + limit := Nat.le_add_right _ _
  have hhands := (e.driver w token s.now).hands_punctual run hd
  refine (e.holds_relate hw hfresh hs hhands).and_now.mono ?_
  rintro ⟨run', story⟩ s' ⟨hclosed, hs'⟩
  exact hclosed.meetsDeadline hd (by simp [driver, hlimit]) hs'

/-- Run a workflow from start to end, and tell the story. -/
def recount (e : Engine) (w : Workflow) (payload : Value) (options : RunOptions) :
    Process World (Run × Story) := do
  let (run, token) ← e.prepare w payload options
  e.relate w run token

theorem fst_recount (e : Engine) (w : Workflow) (payload : Value) (options : RunOptions) :
    Prod.fst <$> e.recount w payload options = e.execute w payload options := by
  unfold recount execute
  rw [map_bind]
  congr 1
  funext r
  exact e.fst_relate w r.1 r.2

/-- Setting a run off takes no time. -/
theorem holds_prepare_punctual (e : Engine) (w : Workflow) (payload : Value)
    (options : RunOptions) {deadline : Nat} (hs : s.now ≤ deadline) :
    (e.prepare w payload options).Holds punctual (·.now ≤ deadline)
      (fun r s' => s'.now = s.now ∧ e.SetsOff w payload options s r.1) s := by
  refine holds_prepare (fun s' h => ?_) ?_ (fun _ _ _ h => ⟨h, h⟩) rfl
  · exact h ▸ hs
  · exact fun s' s'' h ho => (ho.lock rfl).trans h

/-- The same of the whole of a run. -/
theorem holds_recount_punctual (hw : w.isValid = true) (hlimit : w.settings.timeout = some limit)
    (payload : Value) (options : RunOptions) :
    (e.recount w payload options).Holds punctual (·.now ≤ s.now + limit)
      (fun (run', story) s' => run'.MeetsDeadline w
        (Context.seed w payload options.overrides e.config.environment (.reading s.now))
        story (s.now + limit) s') s := by
  have hprepare := holds_prepare_punctual e w payload options (Nat.le_add_right s.now limit)
  have hfresh := e.always_prepare_fresh hw payload options
  refine holds_bind.mpr ((hprepare.and_always hfresh).mono ?_)
  rintro ⟨run, token⟩ s₁ ⟨⟨hnow, hoff⟩, hfresh⟩
  have hdrive := holds_relate_punctual (e := e) (s := s₁) hw hlimit hfresh token
  rw [hnow] at hdrive
  rw [← hoff.context]
  exact hdrive

end Engine

end Automation
