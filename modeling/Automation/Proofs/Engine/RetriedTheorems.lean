/-
Automation.Proofs.Engine.RetriedTheorems — the records of whole runs report
how their nodes were attempted.

Every record of a run says of its node what the attempts at it came to
(`NodeRun.Recounts`), in any exact company (`Engine.holds_relate_exact`). In
a schedule this is so of a run that is executed at once, and of a run in the
background, whether or not it is cancelled (`nodes_are_retried`). A run that
is executed at once, and whose time is not limited, is not cut off.
-/
import Automation.Proofs.Engine.PledgeTheorems
import Automation.Proofs.Engine.RetryTheorems
import Automation.Proofs.Engine.SolitudeTheorems

namespace Automation

open Process
open Automation.Json (Value)

/-- The record of a node reports what its chapter tells. -/
def NodeRun.Recounts (d : Driver) (record : NodeRun) (chapter : Chapter) : Prop :=
  ∃ asked begun rounds retries w,
    record.Reports d chapter.node asked begun rounds retries chapter.verdict w ∧
    List.Forall₂ Trial.Shows chapter.trials rounds

/-- The same, in states that were all `ok`: if nothing cuts a run off in such states,
the node has come to a verdict of its own. -/
structure NodeRun.RecountsIn (d : Driver) (ok : World → Prop) (record : NodeRun)
    (chapter : Chapter) : Prop where
  recounts : record.Recounts d chapter
  decides : (∀ s, ok s → d.Live s) → chapter.verdict.Decides

/-! ## Driving -/

/-- Less always holds. -/
theorem Process.Holds.weaken {σ α : Type} {c : Company σ} {always always' : σ → Prop}
    {post : α → σ → Prop} (h : ∀ s, always s → always' s) :
    ∀ {p : Process σ α} {s : σ}, p.Holds c always post s → p.Holds c always' post s
  | .done _, _, hp => ⟨h _ hp.1, hp.2⟩
  | .act _ _, _, hp => ⟨h _ hp.1, hp.2.weaken h⟩
  | .locked _ _, _, hp => fun s₁ ho => ⟨h _ (hp s₁ ho).1, (hp s₁ ho).2.weaken h⟩
  | .spend _ next, _, hp => Holds.weaken (p := next) h hp
  | .await _ _, _, hp => fun s₁ ho =>
    ⟨h _ (hp s₁ ho).1, fun wake hw => ((hp s₁ ho).2 wake hw).weaken h⟩

namespace Driver

variable {d : Driver} {c : Company World} (hc : c.Exact) {always : World → Prop}
  (hg : d.Guards c always) (hsave : ∀ s run, always s → always (s.saveRun run).2)
  {run : Run} {story : Story} {s : World}

include hc hg hsave

theorem holds_relateVisit_exact (g : Graph) (id : String)
    (h : List.Forall₂ (NodeRun.RecountsIn d always) run.nodes story) (hs : always s) :
    (d.relateVisit g id (run, story)).Holds c always
      (fun (a, _) _ => List.Forall₂ (NodeRun.RecountsIn d always) a.1.nodes a.2) s := by
  refine holds_bind.mpr (holds_read hs ?_)
  split
  · exact holds_done hs h
  refine holds_bind.mpr (holds_read hs ?_)
  split
  · exact holds_done hs h
  cases g.node? id with
  | none => exact holds_done hs h
  | some node =>
    refine holds_bind.mpr ((holds_tellNode_exact hc hg hsave hs node run).and_now.mono ?_)
    rintro ⟨⟨run', verdict⟩, trials⟩ t
      ⟨⟨asked, record, rounds, retries, w, -, hnodes, hreports, hshows, -, hw⟩, ht⟩
    have hnext : List.Forall₂ (NodeRun.RecountsIn d always) run'.nodes
        (story ++ [⟨node, verdict, trials⟩]) := by
      have hdecides : (∀ s, always s → d.Live s) → verdict.Decides := by
        intro hlive
        by_contra hd
        exact (hreports.cut hd).not_live (hlive w hw)
      rw [hnodes]
      exact List.rel_append h
        (.cons ⟨⟨asked, _, rounds, retries, w, hreports, hshows⟩, hdecides⟩ .nil)
    cases verdict with
    | completed output => exact holds_done ht hnext
    | cancelled => exact holds_done ht hnext
    | timedOut => exact holds_done ht hnext
    | failed error =>
      dsimp only
      split
      · exact holds_done ht hnext
      · exact holds_done ht hnext

/-- Closing a run leaves the records of its nodes. -/
theorem holds_conclude_exact (halt : Option Halt) (hs : always s) :
    (d.conclude run halt).Holds c always (fun run' _ => run'.nodes = run.nodes) s := by
  have hclose : ∀ run' : Run, run'.nodes = run.nodes →
      (save run').Holds c always (fun run'' _ => run''.nodes = run.nodes) s := by
    refine fun run' hnodes => (holds_save_exact hc hg hsave hs run').mono ?_
    exact fun run'' _ h => h.1.nodes.trans hnodes
  refine holds_bind.mpr (holds_read hs ?_)
  have hasked : (d.isCancelled run >>= fun cancelled =>
      if cancelled then save (run.cancel s.now) else save (run.finish .completed s.now)).Holds c
        always (fun run'' _ => run''.nodes = run.nodes) s := by
    refine holds_bind.mpr (holds_read hs ?_)
    split
    · exact hclose _ (run.cancel_nodes s.now)
    · exact hclose _ rfl
  cases halt with
  | none => exact hasked
  | some reason =>
    cases reason with
    | failed node error => exact hclose _ rfl
    | timedOut => exact hclose _ rfl
    | cancelled => exact hasked

omit hc hg hsave in
/-- While the others leave its token alone, a run is not cancelled. -/
theorem guards_unfired (d : Driver) (P : String → Prop) :
    d.Guards (crowd P) (·.store.isFired d.token = false) where
  signals := rfl
  others _ _ _ _ hs ho := (ho.passes.isFired d.token).trans hs
  services _ _ h := h

end Driver

namespace Engine

variable {e : Engine} {w : Workflow} {c : Company World} (hc : c.Exact) {always : World → Prop}
  {run : Run} {token : Nat} {s : World}

include hc

/-- **The records of a run** report how its nodes were attempted. -/
theorem holds_relate_exact (hg : (e.driver w token s.now).Guards c always)
    (hsave : ∀ s run, always s → always (s.saveRun run).2) (hs : always s)
    (hrun : run.nodes = []) : (e.relate w run token).Holds c always
      (fun (run', story) _ =>
        List.Forall₂ (NodeRun.RecountsIn (e.driver w token s.now) always) run'.nodes story) s := by
  unfold relate
  split
  · refine holds_done hs ?_
    dsimp only
    rw [hrun]
    exact .nil
  · refine holds_bind.mpr (holds_read hs (holds_bind.mpr ?_))
    generalize e.driver w token s.now = d at hg ⊢
    have hwalk : (walk (d.relateVisit (Graph.ofWorkflow w)) (Graph.ofWorkflow w).size []
        (Graph.ofWorkflow w).starts (run, [])).Holds c always (fun r s' => always s' ∧
          List.Forall₂ (NodeRun.RecountsIn d always) r.1.1.nodes r.1.2) s := by
      refine holds_walk (fun a s' => always s' ∧
        List.Forall₂ (NodeRun.RecountsIn d always) a.1.nodes a.2)
        (fun _ _ h => h.1) (fun _ _ h => h) ?_ _ _ _ _ _ ⟨hs, hrun ▸ .nil⟩
      rintro id ⟨run', story⟩ s' ⟨hs', h⟩
      refine (Driver.holds_relateVisit_exact hc hg hsave _ id h hs').and_now.mono ?_
      rintro ⟨a, onward⟩ t ⟨hnext, ht⟩
      cases onward with
      | follow targets => exact ⟨ht, hnext⟩
      | halt reason => exact ⟨ht, ht, hnext⟩
    refine hwalk.mono ?_
    rintro ⟨⟨run', story⟩, halt⟩ s' ⟨hs', h⟩
    refine holds_bind.mpr ((Driver.holds_conclude_exact hc hg hsave halt hs').and_now.mono ?_)
    rintro run'' t ⟨hnodes, ht⟩
    refine holds_done ht ?_
    dsimp only
    rwa [hnodes]

omit hc in
/-- **A run that is executed beside jobs** is not cancelled, and its records report
how its nodes were attempted. -/
theorem holds_recount_exact {ids : Series} {n : Nat} (hs : s.Tidy ids n) (e : Engine)
    (w : Workflow) (payload : Value) (options : RunOptions) :
    (e.recount w payload options).Holds (crowd (ids.Issued n)) (fun _ => True)
      (fun (run, story) _ => ∃ token, List.Forall₂ (NodeRun.RecountsIn (e.driver w token s.now)
        (·.store.isFired token = false)) run.nodes story) s := by
  refine holds_bind.mpr ((e.holds_prepare_opened hs w payload options).mono ?_)
  rintro ⟨run, token⟩ s₁ ⟨hrun, hopened⟩
  have hnodes : run.nodes = [] := by
    dsimp only at hrun
    rw [hrun]
    unfold outset
    split <;> rfl
  have hdrive := holds_relate_exact (s := s₁) (crowd_exact (ids.Issued n))
    ((e.driver w token s₁.now).guards_unfired _)
    (fun s' r h => (congrArg (List.contains · token) (Store.save_fired s'.store r)).trans h)
    hopened.begins.unfired hnodes
  refine (hdrive.weaken fun _ _ => trivial).mono ?_
  rintro ⟨run', story⟩ t hrecounts
  have hnow : s₁.now = s.now := hopened.begins.now
  exact ⟨token, hnow ▸ hrecounts⟩

omit hc in
/-- The records of a run in any exact company. -/
theorem holds_relate_recounts (hc : c.Exact) (e : Engine) (w : Workflow) (token : Nat)
    (hrun : run.nodes = []) : (e.relate w run token).Holds c (fun _ => True)
      (fun (run', story) _ =>
        List.Forall₂ (NodeRun.Recounts (e.driver w token s.now)) run'.nodes story) s := by
  refine (holds_relate_exact hc (hc.guards _) (fun _ _ _ => trivial) trivial hrun).mono ?_
  exact fun _ _ h => h.imp fun _ _ hr => hr.recounts

end Engine

/-- What comes of a process comes of a course of it. -/
theorem Process.Course.reaches {σ α : Type} {c : Company σ} {p : Process σ α} {s : σ} :
    ∀ {q : Process σ α} {t : σ}, Course c p s q t →
      q.Holds c (fun _ => True) (fun a t' => Course c p s (.done a) t') t
  | .done _, _, h => ⟨trivial, h⟩
  | .act _ _, _, h => ⟨trivial, h.act.reaches⟩
  | .locked _ _, _, h => fun _ ho => ⟨trivial, (h.others trivial ho).locked.reaches⟩
  | .spend _ next, _, h => Course.reaches (q := next) h.spend
  | .await _ _, _, h => fun _ ho => ⟨trivial, fun _ hw => ((h.others trivial ho).await hw).reaches⟩

/-- In the exact company, a wait for an instant that nothing cuts off may last until then. -/
theorem Process.Course.elapses {α : Type} {p : Process World α} {s t : World} {wait : Wait}
    {next : Wake → Process World α} {now : Nat} (h : Course exact p s (.await wait next) t)
    (hdue : wait.due = .instant now) (htoken : wait.token.any t.store.isFired = false)
    (hdeadline : wait.deadline = none) :
    Course exact p s (next .elapsed) { t with now := max t.now now } := by
  have hinstant : wait.instant? = some now := by
    unfold Wait.instant?
    rw [hdeadline, hdue]
  have hkeeps : t.Keeps (some wait) { t with now := max t.now now } := by
    refine ⟨.setNow (fun i hi => ?_) t, ?_⟩
    · rw [hinstant] at hi
      exact Nat.le_of_eq (Option.some.inj hi)
    · rintro _ ⟨⟩ hnothing
      rw [hdue] at hnothing
      cases hnothing
  refine (h.others trivial hkeeps).await ?_
  refine (if_neg (Bool.eq_false_iff.mp htoken)).trans ((if_neg ?_).trans (if_pos ?_))
  · simp [hdeadline]
  · rw [hdue]
    exact decide_eq_true (Nat.le_max_right t.now now)

namespace Schedule

variable {e : Engine} {w : Workflow} {payload : Value} {options : RunOptions} {s : Schedule}

theorem Tidy.performAll (hs : s.Tidy) (commands : List Command) :
    (s.performAll commands).Tidy := by
  have hobeys : s.performAll commands = s.obeyAll (commands.map .tell) := by
    unfold Schedule.performAll Schedule.obeyAll
    rw [List.foldl_map]
    rfl
  rw [hobeys]
  exact hs.obeyAll _

/-- The records of a run that is executed. -/
theorem Tidy.execute_recounts (hs : s.Tidy) {run : Run} {s' : Schedule}
    (h : s.execute e w payload options = (some run, s')) : ∃ story token,
      Course exact (e.recount w payload options) s.world (.done (run, story)) s'.world ∧
      List.Forall₂ (NodeRun.Recounts (e.driver w token s.world.now)) run.nodes story ∧
      (w.settings.timeout = none → ∀ chapter ∈ story, chapter.verdict.Decides) := by
  have hp : Servable (e.execute w payload options) (Engine.stops w) :=
    .of_asked (.execute e w payload options)
  have ha : Asks s (e.execute w payload options) := ⟨hs.tame, hp.does, _, hp.within⟩
  have hattended := serve_attends ha hs.idle (Engine.stops w)
  unfold Schedule.execute at h
  rw [h] at hattended
  have hcourse := hattended.course_crowd ha hs.idle fun job hj => (hs.jobs job hj).2
  rw [← e.fst_recount] at hcourse
  obtain ⟨⟨run, story⟩, hrecount, rfl⟩ := hcourse.of_map_done
  obtain ⟨-, token, hrecounts⟩ := hrecount.holds (Engine.holds_recount_exact hs.world e w payload
    options)
  refine ⟨story, token, ?_, hrecounts.imp fun _ _ hr => hr.recounts, fun htimeout => ?_⟩
  · have hsignals : exact.signals = (crowd (s.world.series.Issued s.world.runs)).signals := rfl
    exact hrecount.mono hsignals fun _ _ _ => keeps_of_crowd
  · have hlive : ∀ t : World, t.store.isFired token = false →
        (e.driver w token s.world.now).Live t := by
      intro t ht
      refine ⟨ht, ?_⟩
      simp [Driver.isUp, Engine.driver, htimeout]
    have hdecides : List.Forall₂ (fun (chapter : Chapter) (_ : NodeRun) =>
        chapter.verdict.Decides ∧ True) story run.nodes :=
      .flip (hrecounts.imp fun _ _ hr => ⟨hr.decides hlive, trivial⟩)
    exact ((List.forall₂_and_left _ _).mp hdecides).1

/-- The records of a run in the background. -/
theorem Sound.spawn_recounts (hs : s.Sound) (e : Engine) (w : Workflow) (payload : Value)
    (options : RunOptions) : ∃ run token s₁, s.spawn e w payload options = (some run.id, s₁) ∧
      ∀ after u, u = s₁.performAll after → ∀ run', (u.join run.id).1 = some run' →
        ∃ s₀ story t, s₀.now = s.world.now ∧
          Course exact (e.relate w run token) s₀ (.done (run', story)) t ∧
          List.Forall₂ (NodeRun.Recounts (e.driver w token s.world.now)) run'.nodes story := by
  obtain ⟨run, token, t, hprepare, hspawn⟩ := hs.spawn_answers e w payload options
  obtain ⟨hnow, hoff, -⟩ := hs.prepares e w payload options hprepare
  refine ⟨run, token, _, hspawn, ?_⟩
  rintro after u rfl run' hrun'
  -- what the driver is pledged to is a course of it
  have hpledges : (t.background e w run token).Pledges run.id fun run' => ∃ s₀ story t',
      s₀.now = s.world.now ∧ Course exact (e.relate w run token) s₀ (.done (run', story)) t' := by
    refine hs.pledges hprepare fun s' hs' => ?_
    rw [← e.fst_relate, map_eq_pure_bind]
    refine holds_bind.mpr (Course.start.reaches.mono ?_)
    rintro ⟨run', story⟩ t' hcourse
    exact holds_done trivial ⟨s', story, t', hs'.trans hnow, hcourse⟩
  have hs₁ := (hs.spawn e w payload options).1
  rw [hspawn] at hs₁
  have hp₀ := e.wait?_drive w run token
  obtain ⟨hfollows, hafter⟩ :=
    (pledges_lasting hp₀).performAll after hs₁ ⟨hs.follows hprepare, hpledges⟩
  obtain ⟨s₀, story, t', hs₀, hcourse⟩ :=
    hafter.join (hs₁.performAll after).1 hp₀ hfollows hrun'
  refine ⟨s₀, story, t', hs₀, hcourse, ?_⟩
  rw [← hs₀]
  exact (hcourse.holds (Engine.holds_relate_recounts exact_exact e w token hoff.nodes)).2

end Schedule

/-- An executor that fails when it is called first. -/
def Executor.unsteady : Executor := fun _ _ services =>
  let ending := if services.calls.isEmpty then .failure "not yet" else .answer { value := .null }
  ({ finish := some { ending } }, services.enter (.rules "" .null))

/-- A workflow of one node that is attempted three times. -/
def Workflow.patient : Workflow :=
  { Workflow.lone with
    settings := { errorHandling := .retry, logging := { enabled := true, level := .warn } } }

/-- An engine that has nothing but the unsteady executor. -/
def Engine.unsteady : Engine where
  executors _ := some .unsteady
  config := default

/-- The second attempt is made after the delay, and answers. -/
theorem patient_answers (node : Node) (run : Run) : ∃ run' trials t,
    Course exact ((Engine.unsteady.driver .patient 0 0).tellNode node run) {}
      (.done ((run', .completed { value := .null }), trials)) t ∧ trials.length = 2 ∧
    t.now = Workflow.patient.settings.retryPolicy.delay 1 := by
  have hbegun : Course exact ((Engine.unsteady.driver .patient 0 0).tellNode node run) {} _ _ :=
    .start
  have hsaved := hbegun.act.locked
  have hfirst := (hsaved.await (rfl : _ = some Wake.elapsed)).act.spend
  have hnoted := hfirst.act.act.act
  have hwaited := hnoted.elapses rfl rfl rfl
  have hsecond := (hwaited.await (rfl : _ = some Wake.elapsed)).act.spend
  exact ⟨_, _, _, hsecond.act.act.locked, rfl, Nat.zero_max _ |>.trans (Nat.zero_add _)⟩

end Automation
