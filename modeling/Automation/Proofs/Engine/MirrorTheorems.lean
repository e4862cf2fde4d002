/-
Automation.Proofs.Engine.MirrorTheorems — one driver as the image of
another.

Two drivers take a run each through the same workflow, each in a world of
its own; they may keep different log entries, and their runs may have
other ids, tokens and clocks. A `Mirror` says how the one is seen as the
other: which worlds are alike, the `View` under which the record of the
original becomes that of its image, and the `Veil` behind which both are
looked at; nothing is veiled unless it is said so. `Mirror.Sound` lists what is
to be checked of single steps: of handing a record in, of each call of an
executor, and of what a driver looks at. Then the two drivers go alike from
start to end (`Mirror.Sound.alike_drive`), whatever comes between their
steps, as long as it leaves the worlds alike.

The image of a driver may be its twin, which does the same in another world
(`Engine.alike_drive_twin`), and in the same world this is about what a
drive does: from all worlds (`Engine.does_drive`) or from those with an
invariant (`Engine.alike_drive_self`).
-/
import Automation.Proofs.Engine.LikenessTheorems
import Automation.Proofs.Run.StoreTheorems
import Automation.Proofs.Run.VeilTheorems
import Automation.Proofs.Workflow.GraphTheorems

namespace Automation

open Process

/-- The same workflow, with other log entries kept. -/
def Workflow.withLogging (w : Workflow) (logging : Logging) : Workflow :=
  { w with settings.logging := logging }

/-- The steps of a driver on its record. -/
inductive Run.Advances (w : Workflow) (r : Run) : Run → Prop where
  | enter {node : Node} (h : node ∈ w.nodes) (now : Nat) :
    Advances w r (r.addNode (.start node r.context.vars now))
  | leave {node : Node} (h : node ∈ w.nodes) (vars : Json.Fields) (began now number : Nat)
      (log : Logger) (verdict : Verdict) :
    Advances w r (Run.updateNode { r with context := r.context.absorb node verdict }
      ((NodeRun.start node vars began).close w.settings node now number log verdict))
  | lose (id : String) : Advances w r (r.addFailure id)
  | stopped (node error : String) (now : Nat) :
    Advances w r (r.fail ("Node '" ++ node ++ "' failed: " ++ error) now)
  | late (now : Nat) : Advances w r (r.fail w.settings.timeoutMessage now)
  | cancelled (now : Nat) : Advances w r (r.cancel now)
  | completed (now : Nat) : Advances w r (r.finish .completed now)

/-- Two drivers, the image and the original, and how they are alike. -/
structure Mirror extends Likeness World World where
  view : View
  /-- What is seen of variables. -/
  veil : Veil := {}
  workflow : Workflow
  /-- Which log entries the image keeps. -/
  logging : Logging
  executors : Executors
  executors' : Executors
  token : Nat
  token' : Nat
  /-- The records that the original has. -/
  owns : Run → Prop

namespace Mirror

/-- The image. -/
def image (m : Mirror) (deadline : Option Nat) : Driver where
  executors := m.executors
  workflow := m.workflow.withLogging m.logging
  token := m.token
  deadline := deadline.map (· + m.view.later)

/-- The original. -/
def original (m : Mirror) (deadline : Option Nat) : Driver where
  executors := m.executors'
  workflow := m.workflow
  token := m.token'
  deadline

/-- Behind the veil, the record of the image is that of the original as seen. -/
def runs (m : Mirror) (r r' : Run) : Prop :=
  m.veil.run r = m.veil.run (m.view.run r') ∧ m.owns r'

/-- Two executors begin the same attempt at a node, behind the veil. -/
def Calls (m : Mirror) (node : Node) (executor executor' : Executor) : Prop :=
  ∀ s t r r', m.states s t → m.runs r r' →
    let answer := executor node ⟨r.context, r.id, r.workflowId, s.now⟩ s.services
    let answer' := executor' node ⟨r'.context, r'.id, r'.workflowId, t.now⟩ t.services
    answer.1.Veiled m.veil node.id answer'.1 ∧
      (answer'.1.finish = none → ∀ deadline : Option Nat,
        m.waits ⟨some m.token, deadline.map (· + m.view.later), .never⟩
          ⟨some m.token', deadline, .never⟩) ∧
      m.steps s t { s with services := answer.2 } { t with services := answer'.2 }

/-- What is to be checked of single steps. -/
structure Sound (m : Mirror) : Prop where
  now : ∀ {s t}, m.states s t → s.now = t.now + m.view.later
  isFired : ∀ {s t}, m.states s t → s.store.isFired m.token = t.store.isFired m.token'
  look : ∀ {s t}, m.states s t → m.steps s t s t
  save : ∀ {s t r r'}, m.states s t → m.runs r r' →
    m.steps s t (s.saveRun r).2 (t.saveRun r').2 ∧ m.runs (s.saveRun r).1 (t.saveRun r').1
  calls : ∀ {node}, node ∈ m.workflow.nodes →
    Option.Rel (m.Calls node) (m.executors node.type) (m.executors' node.type)
  waits_nothing : ∀ deadline : Option Nat,
    m.waits ⟨some m.token, deadline.map (· + m.view.later), .nothing⟩
      ⟨some m.token', deadline, .nothing⟩
  waits_instant : ∀ (deadline : Option Nat) (instant : Nat),
    m.waits ⟨some m.token, deadline.map (· + m.view.later), .instant (instant + m.view.later)⟩
      ⟨some m.token', deadline, .instant instant⟩
  logs : (Logger.ofSettings m.logging).SeenBy m.view
    (Logger.ofSettings m.workflow.settings.logging)
  owns : ∀ {r r'}, m.owns r → r.Advances m.workflow r' → m.owns r'

variable {m : Mirror} (h : m.Sound) (deadline : Option Nat)

/-- Without a veil, the record of the image is what is seen of the original. -/
theorem runs_iff (hveil : m.veil = {}) {r r' : Run} :
    m.runs r r' ↔ r = m.view.run r' ∧ m.owns r' := by
  rw [runs, hveil, Veil.run_clear, Veil.run_clear]

/-- Logs and verdicts on a node of this id that are alike. -/
def Judged (m : Mirror) (id : String) (r r' : Logger × Verdict) : Prop :=
  r.1.SeenBy m.view r'.1 ∧ r.2.Veiled m.veil id r'.2

namespace Sound

include h

/-- The time is read, and handed on. -/
theorem alike_clock {α β : Type} {results : α → β → Prop} {k : Nat → Process World α}
    {k' : Nat → Process World β}
    (hk : ∀ now, (k (now + m.view.later)).Alike m.toLikeness results (k' now)) :
    (Driver.clock >>= k).Alike m.toLikeness results (Driver.clock >>= k') := by
  refine alike_read_bind (fun _ _ => h.look) fun s t hs => ?_
  rw [h.now hs]
  exact hk t.now

theorem alike_save {r r' : Run} (hr : m.runs r r') :
    (Driver.save r).Alike m.toLikeness m.runs (Driver.save r') :=
  fun _ _ hs => h.save hs hr

/-! ## Attempts -/

theorem alike_sleep (ms : Nat) :
    ((m.image deadline).sleep ms).Alike m.toLikeness Eq ((m.original deadline).sleep ms) := by
  refine h.alike_clock fun now => alike_pause ?_
  rw [Nat.add_right_comm]
  exact h.waits_instant deadline (now + ms)

section

variable {id : String} {finish finish' : Finish} (hfinish : finish.Veiled m.veil id finish')

include hfinish

theorem alike_lasts :
    ((m.image deadline).lasts finish).Alike m.toLikeness Eq ((m.original deadline).lasts finish') := by
  unfold Driver.lasts
  rw [hfinish.lasts]
  cases finish'.lasts with
  | none => exact alike_done rfl
  | some ms => exact h.alike_sleep deadline ms

theorem alike_wokenTo {log log' : Logger} (hlog : log.SeenBy m.view log') (wake : Wake) :
    (Driver.wokenTo log finish wake).Alike m.toLikeness (m.Judged id)
      (Driver.wokenTo log' finish' wake) := by
  cases wake with
  | elapsed =>
    refine h.alike_clock fun now => ⟨?_, hfinish.verdict⟩
    rw [hfinish.closing]
    exact hlog.writeAll now finish'.closing
  | cancelled => exact ⟨hlog, .refl _ _ _⟩
  | deadline => exact ⟨hlog, .refl _ _ _⟩

end

theorem alike_awaitEnd {id : String} {log log' : Logger} (hlog : log.SeenBy m.view log')
    {finish finish' : Option Finish} (hfinish : Option.Rel (Finish.Veiled m.veil id) finish finish')
    (hnever : finish' = none → m.waits ⟨some m.token, deadline.map (· + m.view.later), .never⟩
      ⟨some m.token', deadline, .never⟩) :
    ((m.image deadline).awaitEnd log finish).Alike m.toLikeness (m.Judged id)
      ((m.original deadline).awaitEnd log' finish') := by
  cases hfinish with
  | none =>
    refine Alike.bind ?_ (alike_pause (hnever rfl))
    rintro wake _ rfl
    exact ⟨hlog, .refl _ _ _⟩
  | some hfinish =>
    rw [Driver.awaitEnd_some, Driver.awaitEnd_some]
    refine (h.alike_lasts deadline hfinish).bind ?_
    rintro wake _ rfl
    exact h.alike_wokenTo hfinish hlog wake

section

variable {node : Node} {executor executor' : Executor} (hcalls : m.Calls node executor executor')
  {r r' : Run} (hr : m.runs r r')

include hcalls hr

theorem alike_attempt {log log' : Logger} (hlog : log.SeenBy m.view log') :
    ((m.image deadline).attempt executor node r log).Alike m.toLikeness (m.Judged node.id)
      ((m.original deadline).attempt executor' node r' log') := by
  refine Alike.bind ?_ (alike_pause (h.waits_nothing deadline))
  rintro wake _ rfl
  cases wake with
  | cancelled => exact ⟨hlog, .refl _ _ _⟩
  | deadline => exact ⟨hlog, .refl _ _ _⟩
  | elapsed =>
    intro s t hs
    obtain ⟨hattempt, hnever, hstep⟩ := hcalls s t r r' hs hr
    refine ⟨hstep, hattempt.cost, ?_⟩
    rw [hattempt.opening, h.now hs]
    rw [h.now hs] at hattempt
    exact h.alike_awaitEnd deadline (hlog.writeAll t.now _) hattempt.finish
      fun hnone => hnever hnone deadline

/-- The numbers, logs and verdicts of attempts that are alike. -/
theorem alike_attempts (more : Nat) : ∀ (number : Nat) {log log' : Logger},
    log.SeenBy m.view log' →
    ((m.image deadline).attempts executor node r more number log).Alike m.toLikeness
      (fun a b => a.1 = b.1 ∧ m.Judged node.id a.2 b.2)
      ((m.original deadline).attempts executor' node r' more number log') := by
  induction more with
  | zero =>
    intro number log log' hlog
    refine (h.alike_attempt deadline hcalls hr hlog).bind ?_
    rintro ⟨log, verdict⟩ ⟨log', verdict'⟩ hjudged
    exact ⟨rfl, hjudged⟩
  | succ more ih =>
    intro number log log' hlog
    unfold Driver.attempts
    refine (h.alike_attempt deadline hcalls hr hlog).bind ?_
    rintro ⟨log, _⟩ ⟨log', _⟩ ⟨hlog, hverdict⟩
    cases hverdict with
    | failed error =>
      refine h.alike_clock fun now => ?_
      have hnoted := hlog.write now
        (Driver.retryNote m.workflow.settings number error)
      refine (h.alike_sleep deadline _).bind ?_
      rintro wake _ rfl
      cases wake with
      | elapsed => exact ih (number + 1) hnoted
      | cancelled => exact ⟨rfl, hnoted, .refl _ _ _⟩
      | deadline => exact ⟨rfl, hnoted, .refl _ _ _⟩
    | completed houtput => exact ⟨rfl, hlog, .completed houtput⟩
    | cancelled => exact ⟨rfl, hlog, .cancelled⟩
    | timedOut => exact ⟨rfl, hlog, .timedOut⟩

end

/-! ## Nodes -/

theorem alike_tries {node : Node} (hnode : node ∈ m.workflow.nodes) {r r' : Run}
    (hr : m.runs r r') :
    ((m.image deadline).tries node r).Alike m.toLikeness
      (fun a b => a.1 = b.1 ∧ m.Judged node.id a.2 b.2) ((m.original deadline).tries node r') := by
  have hcalls := h.calls hnode
  unfold Driver.tries
  dsimp only [image, original]
  generalize m.executors node.type = executor?, m.executors' node.type = executor?' at hcalls
  cases hcalls with
  | none => exact ⟨rfl, h.logs, .refl _ _ _⟩
  | some hcalls => exact h.alike_attempts deadline hcalls hr _ 1 h.logs

theorem alike_runNode {node : Node} (hnode : node ∈ m.workflow.nodes) {r r' : Run}
    (hr : m.runs r r') :
    ((m.image deadline).runNode node r).Alike m.toLikeness
      (fun a b => m.runs a.1 b.1 ∧ a.2.Veiled m.veil node.id b.2)
      ((m.original deadline).runNode node r') := by
  rw [Driver.runNode_eq, Driver.runNode_eq]
  refine h.alike_clock fun now => ?_
  have hvars : m.veil.fields r.context.vars = m.veil.fields r'.context.vars :=
    congrArg (·.context.vars) hr.1
  have hstarted : m.veil.node (.start node r.context.vars (now + m.view.later)) =
      m.veil.node (.start node r'.context.vars (now + m.view.later)) := by
    rw [Veil.node_start, Veil.node_start, hvars]
  have hentered : m.runs (r.addNode (.start node r.context.vars (now + m.view.later)))
      (r'.addNode (.start node r'.context.vars now)) := by
    refine ⟨?_, h.owns hr.2 (.enter hnode now)⟩
    rw [View.run_addNode, View.node_start, Veil.run_addNode, Veil.run_addNode, hr.1, hstarted]
  refine (h.alike_save hentered).bind fun r₁ r₁' hr₁ => ?_
  refine (h.alike_tries deadline hnode hr₁).bind ?_
  rintro ⟨number, log, verdict⟩ ⟨_, log', verdict'⟩ ⟨rfl, hlog, hverdict⟩
  refine h.alike_clock fun now' => ?_
  refine (h.alike_save ⟨?_, h.owns hr₁.2 (.leave hnode _ _ _ _ _ _)⟩).bind
    fun r₂ r₂' hr₂ => alike_done ⟨hr₂, hverdict⟩
  have habsorbed := Veil.run_absorb hverdict hr₁.1
  have hclosed := Veil.node_close hverdict rfl hstarted m.workflow.settings node
    (now' + m.view.later) number log
  rw [View.run_updateNode, View.run_absorb, View.node_close hlog, View.node_start,
    Veil.run_updateNode, Veil.run_updateNode, ← habsorbed, ← hclosed]
  rfl

theorem alike_isCancelled {r r' : Run} (hr : m.runs r r') {α β : Type} {results : α → β → Prop}
    {k : Bool → Process World α} {k' : Bool → Process World β}
    (hk : ∀ cancelled, (k cancelled).Alike m.toLikeness results (k' cancelled)) :
    ((m.image deadline).isCancelled r >>= k).Alike m.toLikeness results
      ((m.original deadline).isCancelled r' >>= k') := by
  refine alike_read_bind (fun _ _ => h.look) fun s t hs => ?_
  have hstatus : r.status = r'.status := (congrArg Run.status hr.1 :)
  dsimp only [image, original]
  rw [h.isFired hs, hstatus]
  exact hk _

theorem alike_isLate {α β : Type} {results : α → β → Prop}
    {k : Bool → Process World α} {k' : Bool → Process World β}
    (hk : ∀ late, (k late).Alike m.toLikeness results (k' late)) :
    ((m.image deadline).isLate >>= k).Alike m.toLikeness results
      ((m.original deadline).isLate >>= k') := by
  refine alike_read_bind (fun _ _ => h.look) fun s t hs => ?_
  have hlate : (deadline.map (· + m.view.later)).any (· ≤ s.now) = deadline.any (· ≤ t.now) := by
    rw [h.now hs]
    cases deadline <;> simp
  dsimp only [image, original]
  rw [hlate]
  exact hk _

theorem alike_visit {g : Graph} (hg : ∀ node ∈ g.nodes, node ∈ m.workflow.nodes) (id : String)
    (r r' : Run) (hr : m.runs r r') :
    ((m.image deadline).visit g id r).Alike m.toLikeness (Onward.Alike m.runs Eq)
      ((m.original deadline).visit g id r') := by
  refine h.alike_isCancelled deadline hr fun cancelled => ?_
  split
  · exact .halt hr rfl
  · refine h.alike_isLate deadline fun late => ?_
    split
    · exact .halt hr rfl
    · cases hnode : g.node? id with
      | none => exact .follow [] hr
      | some node =>
        have hmem := hg node (List.mem_of_find?_eq_some hnode)
        refine (h.alike_runNode deadline hmem hr).bind ?_
        rintro ⟨r₁, _⟩ ⟨r₁', _⟩ ⟨hr₁, hverdict⟩
        cases hverdict with
        | @completed o o' houtput =>
          have hrouting : o.routing = o'.routing := (congrArg Output.routing houtput :)
          dsimp only
          rw [hrouting]
          exact .follow _ hr₁
        | cancelled => exact .halt hr₁ rfl
        | timedOut => exact .halt hr₁ rfl
        | failed error =>
          have hlost : m.runs (r₁.addFailure id) (r₁'.addFailure id) :=
            ⟨congrArg (·.addFailure id) hr₁.1, h.owns hr₁.2 (.lose id)⟩
          exact alike_ite Iff.rfl (.follow [] hlost) (.halt hr₁ rfl)

/-! ## Runs -/

theorem alike_conclude {r r' : Run} (hr : m.runs r r') (halt : Option Halt) :
    ((m.image deadline).conclude r halt).Alike m.toLikeness m.runs
      ((m.original deadline).conclude r' halt) := by
  have hcancel : ∀ now, m.runs (r.cancel (now + m.view.later)) (r'.cancel now) := by
    refine fun now => ⟨?_, h.owns hr.2 (.cancelled now)⟩
    rw [View.run_cancel, Veil.run_cancel, Veil.run_cancel, hr.1]
  have hcomplete : ∀ now,
      m.runs (r.finish .completed (now + m.view.later)) (r'.finish .completed now) := by
    refine fun now => ⟨?_, h.owns hr.2 (.completed now)⟩
    rw [View.run_finish, Veil.run_finish, Veil.run_finish, hr.1]
  have hfail : ∀ error now, m.veil.run (r.fail error (now + m.view.later)) =
      m.veil.run (m.view.run (r'.fail error now)) := by
    intro error now
    rw [View.run_fail, Veil.run_fail, Veil.run_fail, hr.1]
  have hasked : ∀ now, ((m.image deadline).isCancelled r >>= fun cancelled =>
      if cancelled then Driver.save (r.cancel (now + m.view.later))
      else Driver.save (r.finish .completed (now + m.view.later))).Alike
        m.toLikeness m.runs ((m.original deadline).isCancelled r' >>= fun cancelled =>
      if cancelled then Driver.save (r'.cancel now)
      else Driver.save (r'.finish .completed now)) := by
    refine fun now => h.alike_isCancelled deadline hr fun cancelled => ?_
    split
    · exact h.alike_save (hcancel now)
    · exact h.alike_save (hcomplete now)
  refine h.alike_clock fun now => ?_
  cases halt with
  | none => exact hasked now
  | some reason =>
    cases reason with
    | failed node error => exact h.alike_save ⟨hfail _ now, h.owns hr.2 (.stopped node error now)⟩
    | timedOut => exact h.alike_save ⟨hfail _ now, h.owns hr.2 (.late now)⟩
    | cancelled => exact hasked now

/-- **The image of a drive**: from like records on, the two drivers go
alike and come to like records. -/
theorem alike_drive {e e' : Engine} (he : e.executors = m.executors)
    (he' : e'.executors = m.executors') {r r' : Run} (hr : m.runs r r') :
    (e.drive (m.workflow.withLogging m.logging) r m.token).Alike m.toLikeness m.runs
      (e'.drive m.workflow r' m.token') := by
  unfold Engine.drive
  have hstatus : r.status = r'.status := (congrArg Run.status hr.1 :)
  rw [hstatus]
  split
  · exact hr
  · refine h.alike_clock fun now => ?_
    have hdeadline : (m.workflow.withLogging m.logging).settings.timeout.map
        (now + m.view.later + ·) =
          (m.workflow.settings.timeout.map (now + ·)).map (· + m.view.later) := by
      simp [Workflow.withLogging, Function.comp_def, Nat.add_right_comm]
    dsimp only
    rw [he, he', hdeadline]
    have hvisit := h.alike_visit (m.workflow.settings.timeout.map (now + ·))
      (g := Graph.ofWorkflow m.workflow) (firstNodes_subset [] m.workflow.nodes)
    refine (alike_walk hvisit _ _ _ hr).bind ?_
    rintro ⟨r₁, halt⟩ ⟨r₁', halt'⟩ ⟨hr₁, hhalt⟩
    obtain rfl : halt = halt' := by
      cases hhalt with
      | none => rfl
      | some heq => rw [heq]
    exact h.alike_conclude _ hr₁ halt

end Sound

end Mirror

/-! ## What a drive does -/

@[simp] theorem View.run_self (r : Run) : ({} : View).run r = r := by
  have hentries : ∀ log : List LogEntry, ({} : View).entries log = log := by
    simp [View.entries]
  have hnode : ∀ record : NodeRun, ({} : View).node record = record := by
    simp [View.node, hentries]
  have hnodes : r.nodes.map ({} : View).node = r.nodes := by
    rw [funext hnode, List.map_id']
  simp [View.run, View.context, hnodes]

/-- Advancing keeps the id of a run. -/
theorem Run.Advances.id_eq {w : Workflow} {r r' : Run} (h : r.Advances w r') : r'.id = r.id := by
  cases h with
  | cancelled now => exact r.cancel_id now
  | _ => rfl

/-- A driver beside its twin. -/
def Mirror.twins (l : Likeness World World) (e : Engine) (w : Workflow) (token : Nat)
    (owns : Run → Prop) : Mirror where
  toLikeness := l
  view := {}
  workflow := w
  logging := w.settings.logging
  executors := e.executors
  executors' := e.executors
  token
  token' := token
  owns

/-- Twins have the same record. -/
theorem Mirror.runs_twins {l : Likeness World World} {e : Engine} {w : Workflow} {token : Nat}
    {owns : Run → Prop} {r r' : Run} :
    (Mirror.twins l e w token owns).runs r r' ↔ r = r' ∧ owns r' :=
  (Mirror.runs_iff rfl).trans (by rw [twins, View.run_self])

/-- **A drive goes like its twin**, from worlds in which it is the same time and
collaborators answer alike, as long as the records that it owns are handed in
alike. -/
theorem Engine.alike_drive_twin (l : Likeness World World) (owns : Run → Prop) {w : Workflow}
    (hsame : ∀ s t, l.states s t → s.now = t.now ∧ s.services = t.services ∧
      ∀ k, s.store.isFired k = t.store.isFired k)
    (hlook : ∀ s t, l.states s t → l.steps s t s t)
    (hsave : ∀ s t r, l.states s t → owns r → l.steps s t (s.saveRun r).2 (t.saveRun r).2 ∧
      (s.saveRun r).1 = (t.saveRun r).1 ∧ owns (t.saveRun r).1)
    (hservices : ∀ s t services, l.states s t →
      l.steps s t { s with services } { t with services })
    (hwaits : ∀ wait, l.waits wait wait)
    (howns : ∀ r r', owns r → r.Advances w r' → owns r') (e : Engine) {run : Run} (token : Nat)
    (hrun : owns run) : (e.drive w run token).Alike l (fun r r' => r = r' ∧ owns r')
      (e.drive w run token) := by
  have hsound : (Mirror.twins l e w token owns).Sound := {
    now := fun hs => (hsame _ _ hs).1
    isFired := fun hs => (hsame _ _ hs).2.2 token
    look := hlook _ _
    save := by
      intro s t r r' hs hr
      obtain ⟨rfl, howned⟩ := Mirror.runs_twins.mp hr
      obtain ⟨hok, hrecord⟩ := hsave s t r hs howned
      exact ⟨hok, Mirror.runs_twins.mpr hrecord⟩
    calls := by
      intro node _
      dsimp only [Mirror.twins]
      cases e.executors node.type with
      | none => exact .none
      | some executor =>
        refine .some fun s t r r' hs hr => ?_
        obtain ⟨rfl, -⟩ := Mirror.runs_twins.mp hr
        obtain ⟨hnow, hanswers, -⟩ := hsame s t hs
        have hcall : executor node ⟨r.context, r.id, r.workflowId, s.now⟩ s.services =
            executor node ⟨r.context, r.id, r.workflowId, t.now⟩ t.services := by
          rw [hnow, hanswers]
        dsimp only
        rw [hcall]
        exact ⟨.refl _ _ _, fun _ deadline => by simpa using hwaits _, hservices s t _ hs⟩
    waits_nothing := fun deadline => by simpa [Mirror.twins] using hwaits _
    waits_instant := fun deadline instant => by simpa [Mirror.twins] using hwaits _
    logs := ⟨fun level => by simp [Mirror.twins], rfl⟩
    owns := howns _ _ }
  have hdrive := hsound.alike_drive (Eq.refl e.executors) (Eq.refl e.executors)
    (Mirror.runs_twins.mpr ⟨rfl, hrun⟩)
  exact hdrive.mono fun _ _ => Mirror.runs_twins.mp

/-- **What a drive does** from worlds with an invariant: it hands records in
that it owns and calls collaborators, and does nothing else. -/
theorem Engine.alike_drive_self {inv : World → Prop} {ok : World → World → Prop}
    {owns : Run → Prop} {w : Workflow} (hlook : ∀ s, inv s → ok s s)
    (hsave : ∀ s r, inv s → owns r → ok s (s.saveRun r).2 ∧ owns (s.saveRun r).1)
    (hservices : ∀ s services, inv s → ok s { s with services })
    (howns : ∀ r r', owns r → r.Advances w r' → owns r') (e : Engine) {run : Run} (token : Nat)
    (hrun : owns run) : (e.drive w run token).Alike (.self inv ok) (fun r r' => r = r' ∧ owns r)
      (e.drive w run token) := by
  have htwin := Engine.alike_drive_twin (.self inv ok) owns ?_ ?_ ?_ ?_ ?_ howns e token hrun
  · refine htwin.mono ?_
    rintro r _ ⟨rfl, howned⟩
    exact ⟨rfl, howned⟩
  · rintro s _ ⟨rfl, -⟩
    exact ⟨rfl, rfl, fun _ => rfl⟩
  · rintro s _ ⟨rfl, hs⟩
    exact ⟨rfl, hlook s hs⟩
  · rintro s _ r ⟨rfl, hs⟩ hr
    obtain ⟨hok, howned⟩ := hsave s r hs hr
    exact ⟨⟨rfl, hok⟩, rfl, howned⟩
  · rintro s _ services ⟨rfl, hs⟩
    exact ⟨rfl, hservices s services hs⟩
  · exact fun _ => rfl

/-- What a drive does, whatever the world is. -/
theorem Engine.does_drive {ok : World → World → Prop} {run : Run} (hrefl : ∀ s, ok s s)
    (hsave : ∀ s (r : Run), r.id = run.id → ok s (s.saveRun r).2)
    (hservices : ∀ (s : World) services, ok s { s with services }) (e : Engine) (w : Workflow)
    (token : Nat) : (e.drive w run token).Does ok := by
  have hsaved : ∀ s (r : Run), True → r.id = run.id →
      ok s (s.saveRun r).2 ∧ (s.saveRun r).1.id = run.id :=
    fun s r _ hr => ⟨hsave s r hr, (Store.save_id s.store r).trans hr⟩
  refine Process.Alike.does (Engine.alike_drive_self ?_ hsaved ?_ ?_ e token rfl)
  · exact fun s _ => hrefl s
  · exact fun s services _ => hservices s services
  · exact fun r r' hr h => h.id_eq.trans hr

end Automation
