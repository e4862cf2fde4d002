/-
Automation.Proofs.Engine.AttemptTheorems — attempts at a node in company.

All the waits of an attempt look at the cancellation token, and before
each call of an executor there is one. So whatever invariant the others
keep while a driver waits, and the calls keep that are made before the
token is fired, holds after any number of attempts; and the attempts end
with the verdict that the node was cancelled exactly if the token has been
fired by then (`keeps_attempts`).
-/
import Automation.Proofs.Engine.CompanyTheorems
import Automation.Engine.Drive

namespace Automation

open Process

namespace Driver

/-! ## Waits -/

/-- What the end of a wait tells of its token. -/
theorem wake_cancelled_iff {signals : Signals} {token : Nat} {deadline : Option Nat} {due : Due}
    {wake : Wake} (h : Wait.wake? ⟨some token, deadline, due⟩ signals = some wake) :
    wake = .cancelled ↔ signals.isFired token = true := by
  unfold Wait.wake? at h
  cases hf : signals.isFired token with
  | true =>
    simp only [Option.any_some, hf, if_true, Option.some.injEq] at h
    simp [← h]
  | false =>
    simp only [Option.any_some, hf, Bool.false_eq_true, if_false] at h
    split at h
    · simp [← Option.some.inj h]
    · split at h
      · simp [← Option.some.inj h]
      · cases h

/-- A wait that lasts until what it is for has come. -/
theorem hasCome_of_elapsed {signals : Signals} {wait : Wait}
    (h : wait.wake? signals = some .elapsed) : wait.due.hasCome signals = true := by
  unfold Wait.wake? at h
  split at h
  · cases h
  · split at h
    · cases h
    · split at h
      · next hcome => exact hcome
      · cases h

theorem cutOff_cancelled_iff {wake : Wake} (h : wake ≠ .elapsed) :
    cutOff wake = .cancelled ↔ wake = .cancelled := by
  cases wake with
  | cancelled => simp [cutOff]
  | deadline => simp [cutOff]
  | elapsed => exact absurd rfl h

theorem ofEnding_ne_cancelled (ending : Ending Output) : Verdict.ofEnding ending ≠ .cancelled := by
  cases ending <;> simp [Verdict.ofEnding]

/-- Wait as long as an attempt lasts that ends in this way. -/
def lasts (d : Driver) (finish : Finish) : Process World Wake :=
  match finish.lasts with
  | none => pure .elapsed
  | some ms => d.sleep ms

/-- What an attempt comes to when the wait for its end is over. -/
def wokenTo (log : Logger) (finish : Finish) : Wake → Process World (Logger × Verdict)
  | .elapsed => return (log.writeAll (← clock) finish.closing, .ofEnding finish.ending)
  | wake => return (log, cutOff wake)

theorem awaitEnd_some (d : Driver) (log : Logger) (finish : Finish) :
    d.awaitEnd log (some finish) = d.lasts finish >>= wokenTo log finish := by
  unfold awaitEnd lasts
  dsimp only
  cases finish.lasts with
  | none => rfl
  | some ms => rfl

/-- The invariant holds, and `stopped` tells whether the token was fired. -/
def Told {γ : Type} (d : Driver) (inv : World → γ → Prop) (stopped : Prop) (s : World) (g : γ) :
    Prop :=
  inv s g ∧ (stopped ↔ s.store.isFired d.token = true)

section

variable {γ : Type} {pact : Pact World γ} {inv : World → γ → Prop}
  (hsignals : pact.signals = World.signals)
  (hothers : ∀ s g s₁ g₁, pact.others .wait s g s₁ g₁ → inv s g → inv s₁ g₁)

include hsignals hothers

theorem keeps_pause (d : Driver) (due : Due) {s : World} {g : γ} (hi : inv s g) :
    (d.pause due).Keeps pact (fun wake s g => d.Told inv (wake = .cancelled) s g ∧
      (wake = .elapsed → due.hasCome s.signals = true)) s g := by
  intro s₁ g₁ wake ho hw
  rw [hsignals] at hw
  refine ⟨⟨hothers _ _ _ _ ho hi, wake_cancelled_iff hw⟩, ?_⟩
  intro he
  subst he
  exact hasCome_of_elapsed hw

theorem keeps_sleep (d : Driver) (ms : Nat) {s : World} {g : γ} (hi : inv s g) :
    (d.sleep ms).Keeps pact (fun wake s g => d.Told inv (wake = .cancelled) s g) s g :=
  keeps_bind.mpr (keeps_read ((keeps_pause hsignals hothers d _ hi).mono fun _ _ _ h => h.1))

/-! ## Attempts -/

theorem keeps_lasts (d : Driver) (finish : Finish) {s : World} {g : γ} (hi : inv s g)
    (hlive : s.store.isFired d.token = false) :
    (d.lasts finish).Keeps pact (fun wake s g => d.Told inv (wake = .cancelled) s g) s g := by
  unfold lasts
  cases finish.lasts with
  | none => exact keeps_done ⟨hi, by simp [hlive]⟩
  | some ms => exact keeps_sleep hsignals hothers d ms hi

theorem keeps_awaitEnd (d : Driver) (log : Logger) (finish : Option Finish) {s : World} {g : γ}
    (hi : inv s g) (hlive : s.store.isFired d.token = false) :
    (d.awaitEnd log finish).Keeps pact
      (fun (_, verdict) s g => d.Told inv (verdict = .cancelled) s g) s g := by
  cases finish with
  | none =>
    refine keeps_bind.mpr ((keeps_pause hsignals hothers d .never hi).mono ?_)
    rintro wake s g ⟨htold, hcome⟩
    have hwake : wake ≠ .elapsed := fun h => by cases hcome h
    exact ⟨htold.1, (cutOff_cancelled_iff hwake).trans htold.2⟩
  | some finish =>
    rw [awaitEnd_some]
    refine keeps_bind.mpr ((keeps_lasts hsignals hothers d finish hi hlive).mono ?_)
    rintro wake s g ⟨hi, htold⟩
    cases wake with
    | cancelled => exact keeps_done ⟨hi, by simpa [cutOff] using htold⟩
    | deadline => exact keeps_done ⟨hi, by simpa [cutOff] using htold⟩
    | elapsed =>
      refine keeps_bind.mpr (keeps_read (keeps_done ⟨hi, ?_⟩))
      simpa [ofEnding_ne_cancelled] using htold

variable (d : Driver) (hinvoke : ∀ (services : Services) (s : World) (g : γ), inv s g →
  s.store.isFired d.token = false →
    pact.own g s { s with services } ∧ inv { s with services } g)

include hinvoke

theorem keeps_attempt (executor : Executor) (node : Node) (run : Run) (log : Logger)
    {s : World} {g : γ} (hi : inv s g) :
    (d.attempt executor node run log).Keeps pact
      (fun (_, verdict) s g => d.Told inv (verdict = .cancelled) s g) s g := by
  refine keeps_bind.mpr ((keeps_pause hsignals hothers d .nothing hi).mono ?_)
  rintro wake s g ⟨⟨hi, htold⟩, -⟩
  cases wake with
  | cancelled => exact keeps_done ⟨hi, by simpa [cutOff] using htold⟩
  | deadline => exact keeps_done ⟨hi, by simpa [cutOff] using htold⟩
  | elapsed =>
    have hlive : s.store.isFired d.token = false := by simpa using htold
    obtain ⟨hown, hi'⟩ := hinvoke _ s g hi hlive
    exact ⟨hown, keeps_awaitEnd hsignals hothers d _ _ hi' hlive⟩

/-- **Attempts in company**: the invariant holds after them, and the node
was cancelled exactly if the token has been fired. -/
theorem keeps_attempts (executor : Executor) (node : Node) (run : Run) (more : Nat) :
    ∀ (number : Nat) (log : Logger) {s : World} {g : γ}, inv s g →
      (d.attempts executor node run more number log).Keeps pact
        (fun (_, _, verdict) s g => d.Told inv (verdict = .cancelled) s g) s g := by
  induction more with
  | zero =>
    intro number log s g hi
    unfold attempts
    refine keeps_bind.mpr
      ((keeps_attempt hsignals hothers d hinvoke executor node run log hi).mono ?_)
    rintro ⟨log, verdict⟩ s g htold
    cases verdict <;> exact keeps_done htold
  | succ more ih =>
    intro number log s g hi
    unfold attempts
    refine keeps_bind.mpr
      ((keeps_attempt hsignals hothers d hinvoke executor node run log hi).mono ?_)
    rintro ⟨log, verdict⟩ s g htold
    cases verdict with
    | failed error =>
      refine keeps_bind.mpr (keeps_read (keeps_bind.mpr ?_))
      refine (keeps_sleep hsignals hothers d _ htold.1).mono ?_
      rintro wake s g ⟨hi, htold⟩
      cases wake with
      | cancelled => exact keeps_done ⟨hi, by simpa [cutOff] using htold⟩
      | deadline => exact keeps_done ⟨hi, by simpa [cutOff] using htold⟩
      | elapsed => exact ih _ _ hi
    | completed output => exact keeps_done htold
    | cancelled => exact keeps_done htold
    | timedOut => exact keeps_done htold

end

end Driver

/-! ## Nodes -/

@[simp] theorem World.saveRun_fst (s : World) (run : Run) :
    (s.saveRun run).1 = (s.store.save run).1 := rfl

@[simp] theorem World.saveRun_store (s : World) (run : Run) :
    (s.saveRun run).2.store = (s.store.save run).2 := rfl

/-- How a node stands after a verdict. -/
def Verdict.status : Verdict → NodeStatus
  | .completed _ => .completed
  | .failed _ => .failed
  | .cancelled => .cancelled
  | .timedOut => .failed

/-- The record of a node that has ended. -/
def NodeRun.close (started : NodeRun) (settings : Settings) (node : Node) (now number : Nat)
    (log : Logger) (verdict : Verdict) : NodeRun :=
  { started.conclude settings now verdict with
    attempts := number
    logs := (log.write now (verdict.note settings node)).entries }

section

variable (started : NodeRun) (settings : Settings) (node : Node) (now number : Nat) (log : Logger)
  (verdict : Verdict)

@[simp] theorem NodeRun.close_nodeId :
    (started.close settings node now number log verdict).nodeId = started.nodeId := by
  cases verdict <;> rfl

@[simp] theorem NodeRun.close_startedAt :
    (started.close settings node now number log verdict).startedAt = started.startedAt := by
  cases verdict <;> rfl

@[simp] theorem NodeRun.close_status :
    (started.close settings node now number log verdict).status = verdict.status := by
  cases verdict <;> rfl

end

theorem Verdict.status_ne_running (verdict : Verdict) : verdict.status ≠ .running := by
  cases verdict <;> simp [Verdict.status]

namespace Driver

theorem keeps_save {γ : Type} {pact : Pact World γ} {post : Run → World → γ → Prop} {run : Run}
    {s : World} {g : γ}
    (h : ∀ s₁ g₁, pact.others .lock s g s₁ g₁ → pact.own g₁ s₁ (s₁.saveRun run).2 ∧
      post (s₁.saveRun run).1 (s₁.saveRun run).2 g₁) : (save run).Keeps pact post s g :=
  keeps_stepLocked h

/-- All attempts at a node; there are none without an executor. -/
def tries (d : Driver) (node : Node) (run : Run) : Process World (Nat × Logger × Verdict) :=
  let log := Logger.ofSettings d.workflow.settings.logging
  match d.executors node.type with
  | some executor => d.attempts executor node run (d.workflow.settings.maxAttempts - 1) 1 log
  | none => done (0, log, .failed ("No executor registered for node type: " ++ node.type.name))

/-- The steps of a run through a node: it is started and handed in, then
tried, then ended and handed in again. -/
theorem runNode_eq (d : Driver) (node : Node) (run : Run) :
    d.runNode node run = clock >>= fun now =>
      save (run.addNode (.start node run.context.vars now)) >>= fun run' =>
      d.tries node run' >>= fun (number, log, verdict) =>
      clock >>= fun now' =>
      save ({ run' with context := run'.context.absorb node verdict }.updateNode
        ((NodeRun.start node run.context.vars now).close d.workflow.settings node now' number log
          verdict)) >>= fun run'' =>
      done (run'', verdict) := by
  unfold runNode tries
  cases d.executors node.type <;> rfl

section

variable {γ : Type} {pact : Pact World γ} (inv : World → γ → Prop)
  (hsignals : pact.signals = World.signals)
  (hothers : ∀ s g s₁ g₁, pact.others .wait s g s₁ g₁ → inv s g → inv s₁ g₁)
  (d : Driver) (hinvoke : ∀ (services : Services) (s : World) (g : γ), inv s g →
    s.store.isFired d.token = false →
      pact.own g s { s with services } ∧ inv { s with services } g)

include hsignals hothers hinvoke

theorem keeps_tries (node : Node) (run : Run) {s : World} {g : γ} (hi : inv s g) :
    (d.tries node run).Keeps pact (fun (_, _, verdict) s g => inv s g ∧
      (verdict = .cancelled → s.store.isFired d.token = true)) s g := by
  unfold tries
  cases d.executors node.type with
  | none => exact keeps_done ⟨hi, fun h => by cases h⟩
  | some executor =>
    refine (keeps_attempts hsignals hothers d hinvoke executor node run _ 1 _ hi).mono ?_
    rintro ⟨number, log, verdict⟩ s g htold
    exact ⟨htold.1, htold.2.mp⟩

end

end Driver

end Automation
