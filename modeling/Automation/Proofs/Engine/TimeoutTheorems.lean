/-
Automation.Proofs.Engine.TimeoutTheorems — calls that are waited for only so
long.

Webhooks and scripts ask somebody outside, who may answer, fail, or never come
back. The wait for the call has a limit, so an attempt at such a node ends by
then whatever happens (`Attempt.ofCall_within`): as the call does if that comes
to its end in time, at the limit included, and late otherwise.

What a webhook makes of an end is an answer, unless the call panics, and so no
failure of a call is one of the node. A script needs an outcome with exit code
zero. The driver waits for an attempt no longer than it lasts, so the limits
hold for the nodes of a run too (`Driver.Attempts.now_le`). Hence
`calls_in_time`.
-/
import Automation.Proofs.Engine.RoundTheorems

namespace Automation

open Automation.Json (Value Fields)

/-! ## Waiting for a call -/

section

variable {α : Type}

/-- The call comes to this end within so many milliseconds. -/
def Behaviour.Arrives (call : Behaviour α) (limit : Nat) (ending : Ending α) : Prop :=
  ∃ delay, call = .ends delay ending ∧ delay.getD 0 ≤ limit

/-- A call has one end. -/
theorem Behaviour.Arrives.unique {call : Behaviour α} {limit : Nat} {ending ending' : Ending α}
    (h : call.Arrives limit ending) (h' : call.Arrives limit ending') : ending = ending' := by
  obtain ⟨delay, rfl, -⟩ := h
  obtain ⟨delay', heq, -⟩ := h'
  cases heq
  rfl

/-- How the wait for a call ends: like the call if that comes to its end in
time, and else with a failure. -/
def Behaviour.ComesTo (call : Behaviour α) (limit : Nat) (ending : Ending α) : Prop :=
  call.Arrives limit ending ∨
    (∀ ending', ¬call.Arrives limit ending') ∧ ∃ message, ending = .failure message

/-- An answer that is waited for has come in time. -/
theorem Behaviour.ComesTo.answer_iff {call : Behaviour α} {limit : Nat} {ending : Ending α}
    (h : call.ComesTo limit ending) {value : α} :
    ending = .answer value ↔ call.Arrives limit (.answer value) := by
  rcases h with h | ⟨hnever, message, rfl⟩
  · exact ⟨fun heq => heq ▸ h, fun harrives => h.unique harrives⟩
  · exact ⟨fun heq => (by cases heq), fun harrives => absurd harrives (hnever _)⟩

/-- And so has a panic. -/
theorem Behaviour.ComesTo.ne_panic {call : Behaviour α} {limit : Nat} {ending : Ending α}
    (h : call.ComesTo limit ending) (hcall : ∀ text, ¬call.Arrives limit (.panic text))
    (text : String) : ending ≠ .panic text := by
  rcases h with h | ⟨-, message, rfl⟩
  · exact fun heq => hcall text (heq ▸ h)
  · exact fun heq => by cases heq

/-- A wait with a limit ends. -/
theorem Behaviour.within_ends (call : Behaviour α) (limit : Nat) (message : String) :
    ∃ delay ending, call.within limit (.failure message) = .ends delay ending ∧
      delay.getD 0 ≤ limit ∧ call.ComesTo limit ending := by
  cases call with
  | hangs =>
    refine ⟨some limit, .failure message, rfl, Nat.le_refl _, .inr ⟨?_, message, rfl⟩⟩
    rintro ending' ⟨delay, ⟨⟩, -⟩
  | ends delay ending =>
    have hall : delay.all (· ≤ limit) = decide (delay.getD 0 ≤ limit) := by
      cases delay <;> simp
    unfold within
    dsimp only
    rw [hall]
    by_cases hdelay : delay.getD 0 ≤ limit
    · rw [if_pos (decide_eq_true hdelay)]
      exact ⟨delay, ending, rfl, hdelay, .inl ⟨delay, rfl, hdelay⟩⟩
    · rw [if_neg (by simpa using hdelay)]
      refine ⟨some limit, .failure message, rfl, Nat.le_refl _, .inr ⟨?_, message, rfl⟩⟩
      rintro ending' ⟨delay', ⟨⟩, hdelay'⟩
      exact hdelay hdelay'

/-- The attempt comes to this end within so many milliseconds. -/
def Attempt.EndsWithin (attempt : Attempt) (limit : Nat) (ending : Ending Output) : Prop :=
  ∃ finish, attempt.finish = some finish ∧ Driver.span finish ≤ limit ∧ finish.ending = ending

/-- **An attempt that waits for a call with a limit ends by then.** -/
theorem Attempt.ofCall_within (opening : List Note) (call : Behaviour α) (limit : Nat)
    (message : String) (finish : Ending α → List Note × Ending Output) :
    ∃ ending, call.ComesTo limit ending ∧
      (ofCall opening (call.within limit (.failure message)) finish).EndsWithin limit
        (finish ending).2 := by
  obtain ⟨delay, ending, hwithin, hdelay, hcomes⟩ := call.within_ends limit message
  refine ⟨ending, hcomes, ⟨delay, (finish ending).1, (finish ending).2⟩, ?_, hdelay, rfl⟩
  unfold ofCall
  rw [hwithin]

end

/-! ## Webhooks and scripts -/

/-- How long a webhook waits: as long as it says, but no longer than the settings allow. -/
def WebhookConfig.limit (hook : WebhookConfig) (config : EngineConfig) : Nat :=
  hook.timeout.elim config.webTimeout (min · config.webTimeout)

/-- The request of a webhook. -/
def WebhookConfig.request (hook : WebhookConfig) (config : EngineConfig) : WebRequest where
  method := hook.method
  url := hook.url
  headers := hook.headers
  body := hook.body
  timeout := hook.limit config

/-- How long a script is waited for: as long as it says, or else the settings. -/
def ScriptConfig.limit (script : ScriptConfig) (config : EngineConfig) : Nat :=
  script.timeout.getD config.scriptTimeout

/-- The request of a script. -/
def ScriptConfig.request (script : ScriptConfig) (config : EngineConfig)
    (around : Surroundings) : ScriptRequest where
  language := script.language
  code := script.code
  input := Executor.scriptInput around
  timeout := script.limit config

/-- The output of a webhook says whether it was a success. -/
def Output.SaysSuccess (output : Output) (success : Bool) : Prop :=
  ∃ fields : Fields, output.value = .object fields ∧ fields.get? "success" = some (.bool success)

/-- Unless the call panics, a webhook makes an answer of it. -/
theorem webhookEnd_answers (hook : WebhookConfig) {ending : Ending WebResponse}
    (h : ∀ text, ending ≠ .panic text) :
    ∃ output success, (Executor.webhookEnd hook ending).2 = .answer output ∧
      output.routing = .all ∧ output.SaysSuccess success ∧
      (success = true ↔ ∃ response : WebResponse, ending = .answer response ∧
        200 ≤ response.status ∧ response.status < 300) := by
  cases ending with
  | answer response =>
    refine ⟨_, response.isSuccess, rfl, rfl, ⟨_, rfl, rfl⟩, ?_⟩
    simp [WebResponse.isSuccess]
  | failure message =>
    refine ⟨_, false, rfl, rfl, ⟨_, rfl, rfl⟩, ?_⟩
    simp
  | panic text => exact absurd rfl (h text)

/-- What a script makes of the end of its call: an answer of an outcome with
exit code zero, and of everything else a failure, unless the call panics. -/
theorem scriptEnd_answers_iff {ending : Ending ScriptOutcome} :
    (∃ output, (Executor.scriptEnd ending).2 = .answer output) ↔
      ∃ outcome : ScriptOutcome, ending = .answer outcome ∧ outcome.exitCode = 0 := by
  cases ending with
  | failure message => simp [Executor.scriptEnd]
  | panic text => simp [Executor.scriptEnd]
  | answer outcome =>
    by_cases hcode : outcome.exitCode = 0
    · simp [Executor.scriptEnd, hcode]
    · simp [Executor.scriptEnd, hcode]

theorem scriptEnd_ne_panic {ending : Ending ScriptOutcome} (h : ∀ text, ending ≠ .panic text)
    (text : String) : (Executor.scriptEnd ending).2 ≠ .panic text := by
  cases ending with
  | failure message => exact fun heq => by cases heq
  | panic text => exact absurd rfl (h text)
  | answer outcome =>
    unfold Executor.scriptEnd
    dsimp only
    split <;> exact fun heq => by cases heq

/-! ## Attempts -/

section

variable (config : EngineConfig) {node : Node}

/-- A webhook whose data can be read sends one request, and ends in time. -/
theorem webhook_in_time {around : Surroundings} {hook : WebhookConfig}
    (hdata : Executor.filledIn WebhookConfig.decode node around = .ok hook)
    (services : Services) :
    (Executor.webhook config node around services).2.calls =
      services.calls ++ [.web (hook.request config)] ∧
    ∃ ending, (services.fetch (hook.request config)).1.ComesTo (hook.limit config) ending ∧
      (Executor.webhook config node around services).1.EndsWithin (hook.limit config)
        (Executor.webhookEnd hook ending).2 := by
  have hlimit : min (hook.timeout.getD config.webTimeout) config.webTimeout =
      hook.limit config := by
    unfold WebhookConfig.limit
    cases hook.timeout with
    | none => exact Nat.min_self _
    | some ms => rfl
  unfold Executor.webhook Executor.prepared
  rw [hdata]
  dsimp only
  rw [hlimit]
  exact ⟨rfl, Attempt.ofCall_within _ _ _ _ _⟩

/-- A script whose data can be read is run once, and ends in time. -/
theorem script_in_time (around : Surroundings) {script : ScriptConfig}
    (hdata : node.configure ScriptConfig.decode node.data = .ok script) (services : Services) :
    (Executor.script config node around services).2.calls =
      services.calls ++ [.scripts (script.request config around)] ∧
    ∃ ending, (services.runScript (script.request config around)).1.ComesTo
        (script.limit config) ending ∧
      (Executor.script config node around services).1.EndsWithin (script.limit config)
        (Executor.scriptEnd ending).2 := by
  unfold Executor.script Executor.prepared
  dsimp only
  rw [hdata]
  exact ⟨rfl, Attempt.ofCall_within _ _ _ _ _⟩

end

/-! ## Nodes of a run -/

namespace Driver

variable {d : Driver} {executor : Executor} {node : Node} {run : Run} {now : Nat}
  {lines : List Line} {rounds : List Round} {verdict : Verdict} {w : World}

/-- The driver waits for an attempt no longer than it lasts. -/
theorem Attempts.now_le (h : d.Attempts executor node run now lines rounds verdict w)
    {limit : Nat} (hends : ∀ services, ∃ ending,
      (executor node ⟨run.context, run.id, run.workflowId, now⟩ services).1.EndsWithin limit
        ending) : w.now ≤ now + limit := by
  cases h with
  | skipped hoff => exact (hoff.notAfter 0 rfl).trans (Nat.le_add_right now limit)
  | cut hbegins hnow hoff =>
    subst hnow
    obtain ⟨-, rfl⟩ := hbegins
    obtain ⟨-, finish, hfinish, hspan, -⟩ := hends _
    have hbefore := hoff.notAfter (span finish) (by rw [hfinish]; rfl)
    omega
  | ended hbegins hnow hfinish hlive hend =>
    subst hnow
    obtain ⟨-, rfl⟩ := hbegins
    obtain ⟨-, finish, hfinish', hspan, -⟩ := hends _
    rw [hfinish', Option.some.injEq] at hfinish
    subst hfinish
    omega

/-- A node whose attempts end in answers does not fail. -/
theorem Attempts.not_failed (h : d.Attempts executor node run now lines rounds verdict w)
    (hanswers : ∀ round ∈ rounds, ∀ finish,
      (executor node ⟨run.context, run.id, run.workflowId, now⟩ round.before.services).1.finish =
        some finish → ∃ output, finish.ending = .answer output) (error : String) :
    verdict ≠ .failed error := by
  have hcut : ∀ {since most}, d.CutOff since most verdict w → verdict ≠ .failed error := by
    rintro since most hoff rfl
    exact hoff.cuts
  cases h with
  | skipped hoff => exact hcut hoff
  | cut hbegins hnow hoff => exact hcut hoff
  | ended hbegins hnow hfinish hlive hend =>
    subst hnow
    obtain ⟨-, rfl⟩ := hbegins
    obtain ⟨output, houtput⟩ := hanswers _ List.mem_cons_self _ hfinish
    rw [houtput]
    exact fun heq => by cases heq

end Driver

/-- **Webhooks and scripts are waited for only so long.** A webhook whose data
can be read sends one request, which says how long it may take, and unless the
web panics in that time it ends in an answer by then; its output says that it
was a success exactly if a response with a status from 200 to 299 came in
time. So in a run it never fails. A script whose data can be read is run once.
Unless the sandbox panics it ends by its limit, in an answer exactly if an
outcome with exit code zero came in time, and otherwise with a failure. The
driver, too, waits for them no longer than that. -/
theorem calls_in_time (config : EngineConfig) :
    (∀ (node : Node) (around : Surroundings) (hook : WebhookConfig) (services : Services),
      Executor.filledIn WebhookConfig.decode node around = .ok hook →
      (∀ text, ¬(services.fetch (hook.request config)).1.Arrives (hook.limit config)
        (.panic text)) →
      (Executor.webhook config node around services).2.calls =
        services.calls ++ [.web (hook.request config)] ∧
      ∃ output success,
        (Executor.webhook config node around services).1.EndsWithin (hook.limit config)
          (.answer output) ∧
        output.routing = .all ∧ output.SaysSuccess success ∧
        (success = true ↔ ∃ response : WebResponse,
          (services.fetch (hook.request config)).1.Arrives (hook.limit config)
            (.answer response) ∧
          200 ≤ response.status ∧ response.status < 300)) ∧
    (∀ (node : Node) (around : Surroundings) (script : ScriptConfig) (services : Services),
      node.configure ScriptConfig.decode node.data = .ok script →
      (∀ text, ¬(services.runScript (script.request config around)).1.Arrives
        (script.limit config) (.panic text)) →
      (Executor.script config node around services).2.calls =
        services.calls ++ [.scripts (script.request config around)] ∧
      ∃ ending,
        (Executor.script config node around services).1.EndsWithin (script.limit config) ending ∧
        (∀ text, ending ≠ .panic text) ∧
        ((∃ output, ending = .answer output) ↔ ∃ outcome : ScriptOutcome,
          (services.runScript (script.request config around)).1.Arrives (script.limit config)
            (.answer outcome) ∧
          outcome.exitCode = 0)) ∧
    ∀ (d : Driver) (node : Node) (run : Run) (now : Nat) (lines : List Line)
      (rounds : List Round) (verdict : Verdict) (w : World),
      (∀ hook : WebhookConfig,
        Executor.filledIn WebhookConfig.decode node ⟨run.context, run.id, run.workflowId, now⟩ =
          .ok hook →
        d.Attempts (Executor.webhook config) node run now lines rounds verdict w →
        w.now ≤ now + hook.limit config ∧
        ((∀ round ∈ rounds, ∀ text,
          ¬(round.before.services.fetch (hook.request config)).1.Arrives (hook.limit config)
            (.panic text)) → ∀ error, verdict ≠ .failed error)) ∧
      ∀ script : ScriptConfig, node.configure ScriptConfig.decode node.data = .ok script →
        d.Attempts (Executor.script config) node run now lines rounds verdict w →
        w.now ≤ now + script.limit config := by
  refine ⟨fun node around hook services hdata hcall => ?_,
    fun node around script services hdata hcall => ?_,
    fun d node run now lines rounds verdict w => ⟨fun hook hdata h => ⟨?_, fun hcalls => ?_⟩,
      fun script hdata h => ?_⟩⟩
  · obtain ⟨hcalls, ending, hcomes, hends⟩ := webhook_in_time config hdata services
    obtain ⟨output, success, houtput, hrouting, hsays, hsuccess⟩ :=
      webhookEnd_answers hook (hcomes.ne_panic hcall)
    rw [houtput] at hends
    refine ⟨hcalls, output, success, hends, hrouting, hsays, hsuccess.trans ?_⟩
    simp only [hcomes.answer_iff]
  · obtain ⟨hcalls, ending, hcomes, hends⟩ :=
      script_in_time config around hdata services
    refine ⟨hcalls, _, hends, scriptEnd_ne_panic (hcomes.ne_panic hcall), ?_⟩
    simp only [scriptEnd_answers_iff, hcomes.answer_iff]
  · exact h.now_le fun services => by
      obtain ⟨-, ending, -, hends⟩ := webhook_in_time config hdata services
      exact ⟨_, hends⟩
  · refine h.not_failed fun round hround finish hfinish => ?_
    obtain ⟨-, ending, hcomes, finish', hfinish', -, hending⟩ :=
      webhook_in_time config hdata round.before.services
    obtain ⟨output, -, houtput, -⟩ :=
      webhookEnd_answers hook (hcomes.ne_panic (hcalls round hround))
    rw [hfinish', Option.some.injEq] at hfinish
    subst hfinish
    exact ⟨output, hending.trans houtput⟩
  · exact h.now_le fun services => by
      obtain ⟨-, ending, -, hends⟩ :=
        script_in_time config ⟨run.context, run.id, run.workflowId, now⟩ hdata services
      exact ⟨_, hends⟩

/-- A node with these data. -/
def Node.calling (type : NodeType) (data : List (String × Value)) : Node where
  id := "call"
  type
  name := none
  data := .ofFields data
  inputs := []
  outputs := []

/-- A webhook that is answered at its limit, and a script that never comes back. -/
theorem calls_in_time_at_limit :
    let config : EngineConfig := ⟨"test", 100, 200⟩
    let hook : Node := .calling .webhook [("url", .string "u"), ("timeoutMs", .ofNat 500)]
    let script : Node := .calling .script [("code", .string "c"), ("timeoutMs", .ofNat 0)]
    let around : Surroundings := ⟨default, "", "", 0⟩
    let services : Services :=
      { web := [.ends (some 100) (.answer ⟨204, [], .null⟩)], scripts := [.hangs] }
    (∃ output, (Executor.webhook config hook around services).1.EndsWithin 100 (.answer output) ∧
      output.SaysSuccess true) ∧
    ∃ ending, (Executor.script config script around services).1.EndsWithin 0 ending ∧
      ¬∃ output, ending = .answer output := by
  intro config hook script around services
  obtain ⟨hwebhook, hscript, -⟩ := calls_in_time config
  constructor
  · obtain ⟨-, output, success, hends, -, hsays, hsuccess⟩ :=
      hwebhook hook around ⟨"u", "POST", [], none, some 500⟩ services rfl
        (by rintro text ⟨delay, ⟨⟩, -⟩)
    have htrue : success = true := hsuccess.mpr ⟨⟨204, [], .null⟩, ⟨some 100, rfl, Nat.le_refl _⟩,
      by decide, by decide⟩
    exact ⟨output, hends, htrue ▸ hsays⟩
  · obtain ⟨-, ending, hends, -, hanswer⟩ :=
      hscript script around ⟨"lua", "c", some 0⟩ services rfl (by rintro text ⟨delay, ⟨⟩, -⟩)
    refine ⟨ending, hends, fun houtput => ?_⟩
    obtain ⟨outcome, ⟨delay, ⟨⟩, -⟩, -⟩ := hanswer.mp houtput

end Automation
