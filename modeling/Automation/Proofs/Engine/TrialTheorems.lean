/-
Automation.Proofs.Engine.TrialTheorems — how a node is attempted, told in
full.

The driver says of a node only how it ended. Here it is made to tell every
`Trial`: when an executor was called, how the attempt was to go on and what
came of it (`Driver.tellAttempts`); without the trials it is the driver
(`Driver.fst_tellTries`). `Tried` says how the verdict on a node follows
from the trials: the first answer counts, a failure is followed by another
trial or is the verdict, and only the token and the deadline cut a node
off.

`holds_tellAttempts` is about deadlines. No trial begins when the time of
the run is up. A node is given up for its deadline only when that has come,
and ends otherwise only when it has not. If the company is `Punctual`, that
is if its clock does not pass what the driver waits for, a trial that is to
end before the deadline ends as it was to, unless it is cancelled.
-/
import Automation.Proofs.Engine.CourseTheorems

namespace Automation

open Process

/-- An attempt at a node. -/
structure Trial where
  /-- When the executor was called. -/
  began : Nat
  /-- How the attempt was to go on. -/
  course : Attempt
  verdict : Verdict
  deriving Repr, Inhabited

namespace Driver

/-! ## Telling -/

/-- Attempt a node once, and tell about it if it has come to that. -/
def tellAttempt (d : Driver) (executor : Executor) (node : Node) (run : Run) (log : Logger) :
    Process World ((Logger × Verdict) × List Trial) := do
  match ← d.pause .nothing with
  | .elapsed =>
    let (course, now) ← invoke executor node run
    .spend course.cost (pure ())
    let (log, verdict) ← d.awaitEnd (log.writeAll now course.opening) course.finish
    return ((log, verdict), [⟨now, course, verdict⟩])
  | wake => return ((log, cutOff wake), [])

/-- Attempt a node until it does not fail, and tell all trials. -/
def tellAttempts (d : Driver) (executor : Executor) (node : Node) (run : Run) :
    (more number : Nat) → Logger → Process World ((Nat × Logger × Verdict) × List Trial)
  | 0, number, log => do
    let ((log, verdict), trials) ← d.tellAttempt executor node run log
    return ((number, log, verdict), trials)
  | more + 1, number, log => do
    let ((log, verdict), trials) ← d.tellAttempt executor node run log
    match verdict with
    | .failed error =>
      let settings := d.workflow.settings
      let now ← clock
      let log := log.write now (retryNote settings number error)
      match ← d.sleep (settings.retryPolicy.delay number) with
      | .elapsed =>
        let (result, others) ← d.tellAttempts executor node run more (number + 1) log
        return (result, trials ++ others)
      | wake => return ((number, log, cutOff wake), trials)
    | verdict => return ((number, log, verdict), trials)

/-- All attempts at a node, told. -/
def tellTries (d : Driver) (node : Node) (run : Run) :
    Process World ((Nat × Logger × Verdict) × List Trial) :=
  let log := Logger.ofSettings d.workflow.settings.logging
  match d.executors node.type with
  | some executor =>
    d.tellAttempts executor node run (d.workflow.settings.maxAttempts - 1) 1 log
  | none =>
    done ((0, log, .failed ("No executor registered for node type: " ++ node.type.name)), [])

theorem fst_tellAttempt (d : Driver) (executor : Executor) (node : Node) (run : Run)
    (log : Logger) :
    Prod.fst <$> d.tellAttempt executor node run log = d.attempt executor node run log := by
  unfold tellAttempt attempt
  rw [map_bind]
  congr 1
  funext wake
  cases wake with
  | cancelled => rfl
  | deadline => rfl
  | elapsed =>
    simp only [map_bind, map_pure]
    congr 1
    funext r
    congr 1
    funext _
    exact bind_pure _

theorem fst_tellAttempts (d : Driver) (executor : Executor) (node : Node) (run : Run)
    (more : Nat) : ∀ (number : Nat) (log : Logger),
      Prod.fst <$> d.tellAttempts executor node run more number log =
        d.attempts executor node run more number log := by
  induction more with
  | zero =>
    intro number log
    unfold tellAttempts attempts
    rw [← fst_tellAttempt, map_bind, bind_map_left]
    rfl
  | succ more ih =>
    intro number log
    unfold tellAttempts attempts
    rw [← fst_tellAttempt, map_bind, bind_map_left]
    congr 1
    funext r
    obtain ⟨⟨log, verdict⟩, trials⟩ := r
    cases verdict with
    | completed output => rfl
    | cancelled => rfl
    | timedOut => rfl
    | failed error =>
      simp only [map_bind]
      congr 1
      funext now
      congr 1
      funext wake
      cases wake with
      | cancelled => rfl
      | deadline => rfl
      | elapsed =>
        dsimp only
        rw [map_bind, ← ih, map_eq_pure_bind]
        rfl

/-- Without the trials these are the attempts of the driver. -/
theorem fst_tellTries (d : Driver) (node : Node) (run : Run) :
    Prod.fst <$> d.tellTries node run = d.tries node run := by
  unfold tellTries tries
  cases d.executors node.type with
  | none => rfl
  | some executor => exact d.fst_tellAttempts executor node run _ 1 _

/-! ## Trials and verdicts -/

/-- How the verdict on a node follows from its trials. -/
inductive Tried : List Trial → Verdict → Prop where
  /-- The node is cut off before a trial begins. -/
  | cut {verdict : Verdict} : verdict = .cancelled ∨ verdict = .timedOut → Tried [] verdict
  /-- The last trial decides. -/
  | last (trial : Trial) : Tried [trial] trial.verdict
  /-- The node is cut off after a trial that has failed. -/
  | between {trial : Trial} {error : String} {verdict : Verdict} :
      trial.verdict = .failed error → verdict = .cancelled ∨ verdict = .timedOut →
      Tried [trial] verdict
  /-- Another trial follows after one that has failed. -/
  | again {trial : Trial} {error : String} {others : List Trial} {verdict : Verdict} :
      trial.verdict = .failed error → Tried others verdict → Tried (trial :: others) verdict

/-- A trial that answers is the last one, and the verdict is its answer. -/
theorem Tried.of_answer {trials : List Trial} {verdict : Verdict} (h : Tried trials verdict)
    {trial : Trial} (htrial : trial ∈ trials) {output : Output}
    (ho : trial.verdict = .completed output) :
    verdict = .completed output ∧ trials.getLast? = some trial := by
  induction h with
  | cut _ => cases htrial
  | last t =>
    obtain rfl := List.mem_singleton.mp htrial
    exact ⟨ho, rfl⟩
  | between hfailed _ =>
    obtain rfl := List.mem_singleton.mp htrial
    cases hfailed.symm.trans ho
  | again hfailed hothers ih =>
    rcases List.mem_cons.mp htrial with rfl | htrial
    · cases hfailed.symm.trans ho
    · obtain ⟨hverdict, hlast⟩ := ih htrial
      refine ⟨hverdict, ?_⟩
      rw [List.getLast?_cons, hlast]
      rfl

/-- Whether the time of the run is up at an instant. -/
def isUp (d : Driver) (now : Nat) : Bool :=
  d.deadline.any (· ≤ now)

/-- What a verdict tells of the moment at which it is given. -/
def Justifies (d : Driver) (s : World) : Verdict → Prop
  | .cancelled => s.store.isFired d.token = true
  | .timedOut => d.isUp s.now = true
  | _ => d.isUp s.now = false

end Driver

/-! ## Company -/

/-- The clock stands still while the process stands at a lock, and does not
run past the instant that it waits for. -/
structure Company.Punctual (c : Company World) : Prop where
  lock : ∀ s s', c.others none s s' → s'.now = s.now
  wait : ∀ wait s s' t, c.others (some wait) s s' → wait.instant? = some t →
    s'.now ≤ max s.now t

namespace Driver

/-- Where a driver stands: at a lock, or at a wait that its token and its
deadline cut off. -/
def Stands (d : Driver) (place : Option Wait) : Prop :=
  ∀ wait, place = some wait → wait.token = some d.token ∧ wait.deadline = d.deadline

theorem stands_wait (d : Driver) (due : Due) : d.Stands (some ⟨some d.token, d.deadline, due⟩) := by
  rintro wait ⟨⟩
  exact ⟨rfl, rfl⟩

theorem stands_lock (d : Driver) : d.Stands none := by
  rintro wait ⟨⟩

/-- The others keep the invariant wherever the driver stands, and so do its
calls. -/
structure Guards (d : Driver) (c : Company World) (always : World → Prop) : Prop where
  signals : c.signals = World.signals
  others : ∀ place s s', d.Stands place → always s → c.others place s s' → always s'
  services : ∀ s services, always s → always { s with services }

/-- A trial in its time: it begins before the deadline, and if it is to end
before the deadline, then it ends so. -/
structure InTime (d : Driver) (c : Company World) (trial : Trial) : Prop where
  began : d.isUp trial.began = false
  kept : c.Punctual → ∀ finish, trial.course.finish = some finish →
    d.isUp (trial.began + finish.lasts.getD 0) = false →
    trial.verdict = .ofEnding finish.ending ∨ trial.verdict = .cancelled

theorem isUp_eq_false {d : Driver} {t : Nat} :
    d.isUp t = false ↔ ∀ deadline, d.deadline = some deadline → t < deadline := by
  unfold isUp
  cases d.deadline with
  | none => simp
  | some deadline => simp

theorem isUp_mono {d : Driver} {t t' : Nat} (ht : t ≤ t') (h : d.isUp t' = false) :
    d.isUp t = false :=
  isUp_eq_false.mpr fun deadline hd => Nat.lt_of_le_of_lt ht (isUp_eq_false.mp h deadline hd)

/-! ## Waits -/

/-- What the end of a wait tells of the moment. -/
def Wakes (d : Driver) (due : Due) (s : World) : Wake → Prop
  | .cancelled => s.store.isFired d.token = true
  | .deadline => d.isUp s.now = true
  | .elapsed => d.isUp s.now = false ∧ due.hasCome s.signals = true

theorem wakes_of_wake? {d : Driver} {due : Due} {s : World} {wake : Wake}
    (h : Wait.wake? ⟨some d.token, d.deadline, due⟩ s.signals = some wake) :
    d.Wakes due s wake := by
  unfold Wait.wake? at h
  split at h
  · next hfired =>
    cases h
    exact hfired
  · split at h
    · next hup =>
      cases h
      exact hup
    · next hup =>
      split at h
      · next hcome =>
        cases h
        exact ⟨by rwa [Bool.not_eq_true] at hup, hcome⟩
      · cases h

/-- What the end of a wait makes of a node is justified by it. -/
theorem justifies_cutOff {d : Driver} {due : Due} {s : World} {wake : Wake} (h : d.Wakes due s wake)
    (hwake : wake ≠ .elapsed) : d.Justifies s (cutOff wake) := by
  cases wake with
  | cancelled => exact h
  | deadline => exact h
  | elapsed => exact absurd rfl hwake

theorem justifies_ofEnding {d : Driver} {s : World} (h : d.isUp s.now = false)
    (ending : Ending Output) :
    d.Justifies s (.ofEnding ending) := by
  cases ending <;> exact h

/-- The instant of a wait until before the deadline. -/
theorem instant?_of_isUp {d : Driver} {t : Nat} (h : d.isUp t = false) :
    Wait.instant? ⟨some d.token, d.deadline, .instant t⟩ = some t := by
  unfold Wait.instant?
  cases hd : d.deadline with
  | none => rfl
  | some deadline =>
    have hlt := isUp_eq_false.mp h deadline hd
    exact congrArg some (Nat.min_eq_right (Nat.le_of_lt hlt))

section

variable {d : Driver} {c : Company World} {always : World → Prop} (hg : d.Guards c always)

include hg

theorem holds_pause (due : Due) {s : World} (hs : always s) :
    (d.pause due).Holds c always (fun wake s' => d.Wakes due s' wake ∧
      (c.Punctual → ∀ t, due = .instant t → d.isUp t = false → s'.now ≤ max s.now t)) s := by
  intro s₁ ho
  have hs₁ := hg.others _ _ _ (d.stands_wait due) hs ho
  refine ⟨hs₁, fun wake hw => ⟨hs₁, ?_, ?_⟩⟩
  · rw [hg.signals] at hw
    exact wakes_of_wake? hw
  · rintro hp t rfl hup
    exact hp.wait _ _ _ _ ho (instant?_of_isUp hup)

/-- A sleep that is to end before the deadline is not cut off by it. -/
theorem holds_sleep (ms : Nat) {s : World} (hs : always s) :
    (d.sleep ms).Holds c always (fun wake s' => (∃ due, d.Wakes due s' wake) ∧
      (c.Punctual → d.isUp (s.now + ms) = false → wake ≠ .deadline)) s := by
  refine holds_bind.mpr (holds_read hs ((holds_pause hg _ hs).mono ?_))
  rintro wake s' ⟨hwake, hpunctual⟩
  refine ⟨⟨_, hwake⟩, ?_⟩
  rintro hp hup rfl
  have hle := hpunctual hp _ rfl hup
  rw [Nat.max_eq_right (Nat.le_add_right _ _)] at hle
  have hlate : d.isUp s'.now = true := hwake
  rw [isUp_mono hle hup] at hlate
  cases hlate

theorem holds_lasts (finish : Finish) {s : World} (hs : always s) (hup : d.isUp s.now = false) :
    (d.lasts finish).Holds c always (fun wake s' => (∃ due, d.Wakes due s' wake) ∧
      (c.Punctual → d.isUp (s.now + finish.lasts.getD 0) = false → wake ≠ .deadline)) s := by
  unfold lasts
  cases finish.lasts with
  | none => exact holds_done hs ⟨⟨.nothing, hup, rfl⟩, by simp⟩
  | some ms => exact holds_sleep hg ms hs

/-! ## Attempts -/

/-- An attempt that has begun before the deadline. -/
theorem holds_awaitEnd (log : Logger) (finish : Option Finish) {s : World} (hs : always s)
    (hup : d.isUp s.now = false) :
    (d.awaitEnd log finish).Holds c always (fun (_, verdict) s' => d.Justifies s' verdict ∧
      (c.Punctual → ∀ f, finish = some f → d.isUp (s.now + f.lasts.getD 0) = false →
        verdict = .ofEnding f.ending ∨ verdict = .cancelled)) s := by
  cases finish with
  | none =>
    refine holds_bind.mpr ((holds_pause hg .never hs).and_now.mono ?_)
    rintro wake s' ⟨⟨hwake, -⟩, hs'⟩
    refine holds_done hs' ⟨justifies_cutOff hwake ?_, by simp⟩
    rintro rfl
    cases hwake.2
  | some finish =>
    rw [awaitEnd_some]
    refine holds_bind.mpr ((holds_lasts hg finish hs hup).and_now.mono ?_)
    rintro wake s' ⟨⟨⟨due, hwake⟩, hpunctual⟩, hs'⟩
    cases wake with
    | cancelled =>
      refine holds_done hs' ⟨hwake, ?_⟩
      exact fun _ _ _ _ => Or.inr rfl
    | deadline =>
      refine holds_done hs' ⟨hwake, ?_⟩
      rintro hp f ⟨⟩ hup'
      exact absurd rfl (hpunctual hp hup')
    | elapsed =>
      refine holds_bind.mpr (holds_read hs' (holds_done hs' ⟨justifies_ofEnding hwake.1 _, ?_⟩))
      rintro _ f ⟨⟩ _
      exact Or.inl rfl

/-- One attempt: it is cut off before it begins, or is a trial in its time. -/
theorem holds_tellAttempt (executor : Executor) (node : Node) (run : Run) (log : Logger)
    {s : World} (hs : always s) :
    (d.tellAttempt executor node run log).Holds c always (fun ((_, verdict), trials) s' =>
      d.Justifies s' verdict ∧
        (trials = [] ∧ (verdict = .cancelled ∨ verdict = .timedOut) ∨
          ∃ trial, trials = [trial] ∧ trial.verdict = verdict ∧ d.InTime c trial)) s := by
  refine holds_bind.mpr ((holds_pause hg .nothing hs).and_now.mono ?_)
  rintro wake s₁ ⟨⟨hwake, -⟩, hs₁⟩
  cases wake with
  | cancelled => exact holds_done hs₁ ⟨hwake, Or.inl ⟨rfl, Or.inl rfl⟩⟩
  | deadline => exact holds_done hs₁ ⟨hwake, Or.inl ⟨rfl, Or.inr rfl⟩⟩
  | elapsed =>
    have hs₂ := hg.services s₁ (executor node ⟨run.context, run.id, run.workflowId, s₁.now⟩
      s₁.services).2 hs₁
    refine ⟨hs₁, ?_⟩
    change Holds c always _ (d.awaitEnd _ _ >>= fun r => done ((r.1, r.2), [_])) _
    refine holds_bind.mpr ((holds_awaitEnd hg _ _ hs₂ hwake.1).and_now.mono ?_)
    rintro ⟨log, verdict⟩ s₃ ⟨⟨hjust, hkept⟩, hs₃⟩
    exact holds_done hs₃ ⟨hjust, Or.inr ⟨_, rfl, rfl, hwake.1, hkept⟩⟩

/-- **Attempts and their trials**: the verdict is justified at the moment at
which it is given and follows from the trials, each of which was in its
time. -/
theorem holds_tellAttempts (executor : Executor) (node : Node) (run : Run) (more : Nat) :
    ∀ (number : Nat) (log : Logger) {s : World}, always s →
      (d.tellAttempts executor node run more number log).Holds c always
        (fun ((_, _, verdict), trials) s' => d.Justifies s' verdict ∧ Tried trials verdict ∧
          ∀ trial ∈ trials, d.InTime c trial) s := by
  have hone : ∀ {trials : List Trial} {verdict : Verdict},
      (trials = [] ∧ (verdict = .cancelled ∨ verdict = .timedOut) ∨
        ∃ trial, trials = [trial] ∧ trial.verdict = verdict ∧ d.InTime c trial) →
      Tried trials verdict ∧ ∀ trial ∈ trials, d.InTime c trial := by
    rintro trials verdict (⟨rfl, hcut⟩ | ⟨trial, rfl, rfl, htime⟩)
    · exact ⟨.cut hcut, by simp⟩
    · exact ⟨.last trial, by simpa using htime⟩
  induction more with
  | zero =>
    intro number log s hs
    refine holds_bind.mpr ((holds_tellAttempt hg executor node run log hs).and_now.mono ?_)
    rintro ⟨⟨log, verdict⟩, trials⟩ s' ⟨⟨hjust, htrials⟩, hs'⟩
    exact holds_done hs' ⟨hjust, hone htrials⟩
  | succ more ih =>
    intro number log s hs
    refine holds_bind.mpr ((holds_tellAttempt hg executor node run log hs).and_now.mono ?_)
    rintro ⟨⟨log, verdict⟩, trials⟩ s₁ ⟨⟨hjust, htrials⟩, hs₁⟩
    cases verdict with
    | completed output => exact holds_done hs₁ ⟨hjust, hone htrials⟩
    | cancelled => exact holds_done hs₁ ⟨hjust, hone htrials⟩
    | timedOut => exact holds_done hs₁ ⟨hjust, hone htrials⟩
    | failed error =>
      obtain ⟨trial, rfl, hfailed, htime⟩ := htrials.resolve_left (by simp)
      refine holds_bind.mpr (holds_read hs₁ (holds_bind.mpr ?_))
      refine (holds_sleep hg _ hs₁).and_now.mono ?_
      rintro wake s₂ ⟨⟨⟨due, hwake⟩, -⟩, hs₂⟩
      cases wake with
      | cancelled =>
        exact holds_done hs₂ ⟨hwake, .between hfailed (Or.inl rfl), by simpa using htime⟩
      | deadline =>
        exact holds_done hs₂ ⟨hwake, .between hfailed (Or.inr rfl), by simpa using htime⟩
      | elapsed =>
        refine holds_bind.mpr ((ih _ _ hs₂).and_now.mono ?_)
        rintro ⟨⟨number, log, verdict⟩, others⟩ s₃ ⟨⟨hjust, htried, hothers⟩, hs₃⟩
        refine holds_done hs₃ ⟨hjust, .again hfailed htried, ?_⟩
        intro t ht
        rcases List.mem_cons.mp ht with rfl | ht
        · exact htime
        · exact hothers t ht

end

end Driver

end Automation
