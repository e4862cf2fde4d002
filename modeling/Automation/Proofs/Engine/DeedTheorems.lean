/-
Automation.Proofs.Engine.DeedTheorems — what is done for a run, and what its
record tells of it.

The log of a driver holds the calls of collaborators that it makes
(`World.calls`); each of its changes is one call or none (`World.Calls`). A
deed is done at the beginning of an attempt, and the attempt is not left any
more before the verdict on the node is in hand. So a deed that is not told
yet is the last one, and the driver does not wait while it owes it
(`Run.Owes`, `Stages.deeds`). Whatever an attempt comes to that does not
complete the node, it has done nothing (`Driver.holds_attempt_apart`).

`deeds_accounted` says that the record of a run accounts for all that was
done for it; what the book shows of a task that nobody else touches, and
what was sent if nobody else sends, follows from the log.
-/
import Automation.Proofs.Engine.StageTheorems
import Automation.Proofs.Engine.VariablesTheorems
import Automation.Proofs.Run.AccountTheorems
import Automation.Proofs.Run.DevelopmentTheorems

namespace Automation

open Process
open Called (deeds)
open Automation.Json (Value)
open Automation.Time (Face)

/-! ## Calls -/

namespace World

/-- The calls that lead from one state to another. -/
def calls (s s' : World) : List Called :=
  (s'.services.calls.drop s.services.calls.length).map (⟨·, s.now, s.services⟩)

/-- A change by which one collaborator is called, or none. -/
inductive Calls (s s' : World) : Prop where
  | nobody : s'.services = s.services → Calls s s'
  | one (call : Call) : s'.services = (Called.mk call s.now s.services).after → Calls s s'

variable {s s' : World}

theorem calls_of_nobody (h : s'.services = s.services) : s.calls s' = [] := by
  simp [calls, h]

theorem calls_of_one {call : Call} (h : s'.services = (Called.mk call s.now s.services).after) :
    s.calls s' = [⟨call, s.now, s.services⟩] := by
  unfold calls
  rw [h, Called.after_calls, List.drop_left, List.map_singleton]

/-! ### Tasks and notifications -/

/-- The others leave a task alone, and keep the tasks numbered. -/
structure Avoids (taskId : String) (s s' : World) : Prop where
  numbered : s.services.tasks.Numbered → s'.services.tasks.Numbered
  task : s'.services.tasks.get? taskId = s.services.tasks.get? taskId

/-- The book shows of a task what the last deed of the log has made of it. -/
structure Shelves (taskId : String) (log : List Called) (s : World) : Prop where
  numbered : s.services.tasks.Numbered
  last : ∀ task, Deed.last? (deeds log) taskId = some task →
    s.services.tasks.get? taskId = some task

variable {taskId : String} {log : List Called}

theorem Avoids.shelves (h : s.Avoids taskId s') (hs : Shelves taskId log s) :
    Shelves taskId log s' :=
  ⟨h.numbered hs.numbered, fun task htask => h.task.trans (hs.last task htask)⟩

theorem Calls.shelves (h : s.Calls s') (hs : Shelves taskId log s) :
    Shelves taskId (log ++ s.calls s') s' := by
  cases h with
  | nobody hservices =>
    rw [calls_of_nobody hservices, List.append_nil]
    exact ⟨hservices ▸ hs.numbered, hservices ▸ hs.last⟩
  | one call hservices =>
    rw [calls_of_one hservices]
    generalize hc : Called.mk call s.now s.services = c at hservices
    have hnumbered : c.services.tasks.Numbered := by rw [← hc]; exact hs.numbered
    refine ⟨hservices ▸ Called.numbered_after hnumbered, ?_⟩
    intro task htask
    rw [Called.deeds_snoc, Deed.last?_snoc] at htask
    rw [hservices, Called.get?_after hnumbered]
    rcases Option.or_eq_some_iff.mp htask with hnew | ⟨hnone, hold⟩
    · rw [hnew, Option.some_or]
    · rw [hnone, Option.none_or, ← hc]
      exact hs.last task hold

/-- What is sent by a change is sent by its call. -/
theorem Calls.sent (h : s.Calls s') : s'.services.outbox.sent = s.services.outbox.sent ++
    (deeds (s.calls s')).filterMap Deed.notification? := by
  cases h with
  | nobody hservices =>
    rw [calls_of_nobody hservices, hservices]
    exact (List.append_nil _).symm
  | one call hservices =>
    rw [calls_of_one hservices, hservices, Called.sent_after, ← List.nil_append [_],
      Called.deeds_snoc]
    congr 1
    cases (Called.mk call s.now s.services).deed? with
    | none => rfl
    | some deed => cases deed <;> rfl

end World

/-! ## Verdicts -/

/-- A verdict tells the deed that was done, if one was: then the node has
completed. -/
structure Verdict.Tells (face : Face) (node : Node) (verdict : Verdict) (deed? : Option Deed) :
    Prop where
  answer : ∀ output, verdict = .completed output → output.Tells face node deed?
  prompt : deed?.isSome = true → verdict.status = .completed

section

variable {face : Face} {node : Node} {verdict : Verdict} {deed? : Option Deed}

/-- Nothing was done if the node has not completed. -/
theorem Verdict.Tells.eq_none (h : verdict.Tells face node deed?)
    (hv : verdict.status ≠ .completed) : deed? = none := by
  cases deed? with
  | none => rfl
  | some deed => exact absurd (h.prompt rfl) hv

theorem Verdict.tells_none (hv : verdict.status ≠ .completed) : verdict.Tells face node none where
  answer output ho := by
    subst ho
    exact absurd rfl hv
  prompt h := by cases h

theorem Driver.cutOff_status_ne (wake : Wake) : (cutOff wake).status ≠ .completed := by
  cases wake <;> simp [cutOff, Verdict.status]

/-- An attempt that waits has done nothing. -/
theorem Attempt.Tells.eq_none {attempt : Attempt} (h : attempt.Tells face node deed?)
    (hwaits : attempt.waits = true) : deed? = none := by
  cases deed? with
  | none => rfl
  | some deed =>
    obtain ⟨output, hfinish⟩ := h.prompt rfl
    unfold waits at hwaits
    rw [hfinish] at hwaits
    cases hwaits

/-- The verdict tells what the attempt was to tell. -/
theorem Attempt.Tells.ended {attempt : Attempt} (h : attempt.Tells face node deed?)
    {finish : Finish} (hfinish : attempt.finish = some finish) :
    (Verdict.ofEnding finish.ending).Tells face node deed? where
  answer output ho := by
    refine h.answer finish output hfinish ?_
    cases hending : finish.ending with
    | answer value =>
      rw [hending] at ho
      cases ho
      rfl
    | failure message =>
      rw [hending] at ho
      cases ho
    | panic text =>
      rw [hending] at ho
      cases ho
  prompt hdeed := by
    obtain ⟨output, hanswer⟩ := h.prompt hdeed
    obtain rfl := Option.some.inj (hfinish.symm.trans hanswer)
    rfl

/-- A node that has not completed leaves nothing in the context. -/
theorem Context.absorb_of_ne (context : Context) (hv : verdict.status ≠ .completed) :
    context.absorb node verdict = context := by
  cases verdict with
  | completed output => exact absurd rfl hv
  | failed error => rfl
  | cancelled => rfl
  | timedOut => rfl

theorem Verdict.exists_of_completed (h : verdict.status = .completed) :
    ∃ output, verdict = .completed output := by
  cases verdict with
  | completed output => exact ⟨output, rfl⟩
  | failed error => cases h
  | cancelled => cases h
  | timedOut => cases h

theorem NodeRun.isDeed_of_ne {r : NodeRun} (h : r.status ≠ .completed) : r.isDeed = false := by
  unfold isDeed
  rw [beq_eq_false_iff_ne.mpr h, Bool.false_and]

end

/-! ## Records -/

/-- The record of a node that has ended in this way tells its deed. -/
theorem Accounts.close {face : Face} {context : Context} {before : List NodeRun}
    {told : List Deed} {node : Node} {verdict : Verdict} {deed? : Option Deed} {record : NodeRun}
    (h : Accounts face before context.tasks told) (htells : verdict.Tells face node deed?)
    (hid : record.nodeId = node.id) (htype : record.type = node.type)
    (hstatus : record.status = verdict.status)
    (houtput : ∀ output, verdict = .completed output → record.output = some output.value) :
    Accounts face (before ++ [record]) (context.absorb node verdict).tasks
      (told ++ deed?.toList) := by
  by_cases hv : verdict.status = .completed
  · obtain ⟨output, rfl⟩ := Verdict.exists_of_completed hv
    have htasks : (context.absorb node (.completed output)).tasks =
        context.tasks ++ output.tasks := rfl
    rw [htasks]
    cases htells.answer output rfl with
    | @deed deed hdeed hvalue hreferences =>
      rw [hreferences, ← hid]
      have htells : record.Tells face deed :=
        ⟨htype.trans hdeed, (houtput output rfl).trans (congrArg some hvalue)⟩
      refine h.snoc ?_ htells
      rw [NodeRun.isDeed, hstatus, htells.type, Deed.type_acts]
      rfl
    | nothing hacts hnone =>
      rw [hnone, List.append_nil, Option.toList_none, List.append_nil]
      refine (accounts_snoc_iff ?_).mpr h
      rw [NodeRun.isDeed, htype, hacts, Bool.and_false]
  · rw [htells.eq_none hv, Context.absorb_of_ne _ hv, Option.toList_none, List.append_nil]
    exact (accounts_snoc_iff (NodeRun.isDeed_of_ne (by rwa [hstatus]))).mpr h

/-- A run tells all deeds of a log but perhaps for the last one, of which
this is known. -/
def Run.Owes (face : Face) (run : Run) (log : List Called) (known : Option Deed → Prop) : Prop :=
  ∃ told deed?, deeds log = told ++ deed?.toList ∧ run.Accounts face told ∧ known deed?

namespace Run

variable {face : Face} {run : Run} {log : List Called} {known known' : Option Deed → Prop}

theorem Accounts.owes (h : run.Accounts face (deeds log)) (hnone : known none) :
    run.Owes face log known :=
  ⟨deeds log, none, (List.append_nil _).symm, h, hnone⟩

theorem Owes.mono (h : run.Owes face log known) (hknown : ∀ deed?, known deed? → known' deed?) :
    run.Owes face log known' := by
  obtain ⟨told, deed?, hdeeds, htold, hdeed⟩ := h
  exact ⟨told, deed?, hdeeds, htold, hknown deed? hdeed⟩

/-- If it is known that there is no such deed, all is told. -/
theorem Owes.accounts (h : run.Owes face log known) (hnone : ∀ deed?, known deed? → deed? = none) :
    run.Accounts face (deeds log) := by
  obtain ⟨told, deed?, hdeeds, htold, hdeed⟩ := h
  obtain rfl := hnone deed? hdeed
  rwa [hdeeds, Option.toList_none, List.append_nil]

/-- The record of the node tells its deed. -/
theorem Owes.leave {node : Node} {started : NodeRun} {verdict : Verdict}
    (h : run.Owes face log (verdict.Tells face node)) (hends : run.EndsWith node started)
    (settings : Settings) (now number : Nat) (logger : Logger) :
    (updateNode { run with context := run.context.absorb node verdict }
      (started.close settings node now number logger verdict)).Accounts face (deeds log) := by
  obtain ⟨before, hnodes⟩ := hends.nodes
  obtain ⟨told, deed?, hdeeds, htold, htells⟩ := h
  have hbefore : Automation.Accounts face before run.context.tasks told := by
    have hstarted : started.isDeed = false :=
      NodeRun.isDeed_of_ne (by rw [hends.status]; exact fun h => by cases h)
    refine (accounts_snoc_iff hstarted).mp ?_
    rw [← hnodes]
    exact htold
  have hclosed := NodeRun.close_endsIn hends.status settings node now number logger verdict
  have hlast := hbefore.close htells (hclosed.nodeId.trans hends.nodeId)
    (hclosed.type.trans hends.type) (NodeRun.close_status ..)
    (fun output houtput => by subst houtput; rfl)
  have hupdated : run.nodes.dropLast = before := by rw [hnodes, List.dropLast_concat]
  rw [← hdeeds, ← hupdated] at hlast
  exact hlast

end Run

/-! ## Stages -/

namespace World

/-- A run that its driver has in hand, beside what is stored of it. -/
structure Files (s : World) (id : String) (run : Run) : Prop where
  isRun : run.id = id
  stored : ∀ r, s.store.get? id = some r → r.nodes = run.nodes ∧ r.context = run.context

/-- What is stored of a run tells all deeds of a log but perhaps for the last
one, and while the driver waits it tells all of them. -/
def Recounts (face : Face) (id : String) (place : Option Wait) (log : List Called) (s : World) :
    Prop :=
  ∀ run, s.store.get? id = some run →
    run.Owes face log fun deed? => place.isSome = true → deed? = none

variable {s s' : World} {id : String} {run run' : Run}

theorem Bystanding.files (h : s.Bystanding id s') (hs : s.Files id run) : s'.Files id run where
  isRun := hs.isRun
  stored r' hr' := by
    obtain ⟨entry', he', rfl⟩ := Store.exists_entry? hr'
    obtain ⟨entry, he, hnodes, hcontext⟩ := h.entry entry' he'
    obtain ⟨hnodes₀, hcontext₀⟩ := hs.stored entry.run (Store.get?_eq he)
    exact ⟨hnodes.trans hnodes₀, hcontext.trans hcontext₀⟩

theorem Files.save (h : s.Files id run) (hid : run'.id = run.id) :
    (s.saveRun run').2.Files id (s.saveRun run').1 where
  isRun := ((Store.save_echoes s.store run').id.trans hid).trans h.isRun
  stored r hr := by
    obtain rfl : run'.id = id := hid.trans h.isRun
    obtain rfl := Option.some.inj ((Store.get?_save s.store run').symm.trans hr)
    exact ⟨rfl, rfl⟩

variable {face : Face} {log : List Called} {known : Option Deed → Prop}

theorem Files.recounts (h : s.Files id run) (hrun : run.Owes face log known) {place : Option Wait}
    (hknown : ∀ deed?, known deed? → place.isSome = true → deed? = none) :
    Recounts face id place log s := by
  intro r hr
  obtain ⟨hnodes, hcontext⟩ := h.stored r hr
  obtain ⟨told, deed?, hdeeds, htold, hdeed⟩ := hrun
  exact ⟨told, deed?, hdeeds, htold.congr hnodes (by rw [hcontext]), hknown deed? hdeed⟩

theorem Files.recounts_all (h : s.Files id run) (hrun : run.Accounts face (deeds log))
    (place : Option Wait) : Recounts face id place log s := by
  have howes : run.Owes face log (· = none) := hrun.owes rfl
  exact h.recounts howes fun _ hnone _ => hnone

end World

/-- The driver calls one collaborator at a time, and what is stored tells the
deeds. -/
def Terms.deeds (c : Company World) (face : Face) (id : String) : Terms World Called where
  toCompany := c
  entry := World.calls
  own := World.Calls
  stop q log s := World.Recounts face id q.wait? log s
  entry_refl _ := World.calls_of_nobody rfl
  own_refl _ := .nobody rfl
  stop_bind k log s hp h := by rwa [wait?_bind hp]

/-- The stages of a run that tells its deeds. -/
def Stages.deeds (face : Face) (id : String) : Stages Called where
  between run log s := s.Files id run ∧ run.Accounts face (Called.deeds log)
  within node started run log s := s.Files id run ∧ run.EndsWith node started ∧
    run.Accounts face (Called.deeds log)
  called node started run attempt log s := s.Files id run ∧ run.EndsWith node started ∧
    run.Owes face log (attempt.Tells face node)
  judged node started run verdict log s := s.Files id run ∧ run.EndsWith node started ∧
    run.Owes face log (verdict.Tells face node)
  closed run log _ := run.Accounts face (Called.deeds log)

section

variable {c : Company World} {face : Face} {id : String} {executors : Executors} {w : Workflow}

/-- Handing in a record calls nobody. -/
theorem Terms.deeds_entry_saveRun (s : World) (run : Run) :
    (Terms.deeds c face id).entry s (s.saveRun run).2 = [] :=
  World.calls_of_nobody rfl

/-- An attempt begins: it tells what it has done. -/
theorem Stages.deeds_called {node : Node} {started : NodeRun} {run : Run} {log : List Called}
    {s : World} {answer : Attempt × Services} (h : (deeds face id).within node started run log s)
    (haccounted : Accounted face node s.now s.services answer) :
    let s' : World := { s with services := answer.2 }
    s.Calls s' ∧ (deeds face id).called node started run answer.1 (log ++ s.calls s') s' := by
  intro s'
  obtain ⟨hfiles, hends, hrun⟩ := h
  have hfiles' : s'.Files id run := ⟨hfiles.isRun, hfiles.stored⟩
  cases haccounted with
  | idle htells =>
    have hnobody : s'.services = s.services := rfl
    rw [World.calls_of_nobody hnobody, List.append_nil]
    exact ⟨.nobody hnobody, hfiles', hends, hrun.owes htells⟩
  | called call htells =>
    have hone : s'.services = (Called.mk call s.now s.services).after := rfl
    rw [World.calls_of_one hone]
    exact ⟨.one call hone, hfiles', hends, Called.deeds log, _, Called.deeds_snoc log _, hrun,
      htells⟩

/-- A driver in the company of bystanders whose executors tell what they do. -/
theorem Stages.deeds_sound (hbystand : ∀ place s s', c.others place s s' → s.Bystanding id s')
    (hbuiltin : executors.AreBuiltin face) :
    (deeds face id).Sound executors w (.deeds c face id) where
  between_others ho h := ⟨(hbystand _ _ _ ho).files h.1, h.2⟩
  within_others ho h := ⟨(hbystand _ _ _ ho).files h.1, h.2⟩
  called_others ho h := ⟨(hbystand _ _ _ ho).files h.1, h.2⟩
  judged_others ho h := ⟨(hbystand _ _ _ ho).files h.1, h.2⟩
  between_stop _ h := h.1.recounts_all h.2 _
  judged_stop hq h := h.1.recounts h.2.2 fun deed? _ hwait => by
    rw [hq] at hwait
    cases hwait
  within_stop _ _ _ h := h.1.recounts_all h.2.2 _
  called_stop _ _ _ hwaits h := h.1.recounts h.2.2 fun deed? htells _ => htells.eq_none hwaits
  enter {node run log s} now _ h := by
    intro started saved
    have he : saved.1.Echoes (run.addNode started) := Store.save_echoes s.store _
    have hrun : (run.addNode started).Accounts face (Called.deeds log) :=
      (accounts_snoc_iff rfl).mpr h.2
    refine ⟨.nobody rfl, h.1.save rfl, ⟨⟨run.nodes, he.nodes⟩, rfl, rfl, rfl⟩, ?_⟩
    rw [Terms.deeds_entry_saveRun, List.append_nil]
    exact hrun.echoes he
  invoke {node started run executor log s} hexecutor h := deeds_called h <|
    hbuiltin.accounted hexecutor ⟨run.context, run.id, run.workflowId, s.now⟩ s.services
  refused error _ h :=
    ⟨h.1, h.2.1, h.2.2.owes (Verdict.tells_none (by simp [Verdict.status]))⟩
  cutOff wake h :=
    ⟨h.1, h.2.1, h.2.2.owes (Verdict.tells_none (Driver.cutOff_status_ne wake))⟩
  dropped wake hwaits h :=
    ⟨h.1, h.2.1, h.2.2.mono fun deed? htells => by
      rw [htells.eq_none hwaits]
      exact Verdict.tells_none (Driver.cutOff_status_ne wake)⟩
  ended hfinish h := ⟨h.1, h.2.1, h.2.2.mono fun deed? htells => htells.ended hfinish⟩
  again h := ⟨h.1, h.2.1, h.2.2.accounts fun deed? htells =>
    htells.eq_none (by simp [Verdict.status])⟩
  leave {node started run verdict log s} now number logger h := by
    intro saved
    have he := Store.save_echoes s.store <|
      Run.updateNode { run with context := run.context.absorb node verdict }
        (started.close w.settings node now number logger verdict)
    refine ⟨.nobody rfl, h.1.save rfl, ?_⟩
    rw [Terms.deeds_entry_saveRun, List.append_nil]
    exact (h.2.2.leave h.2.1 w.settings now number logger).echoes he
  failed nodeId h := ⟨⟨h.1.isRun, h.1.stored⟩, h.2⟩
  close {run log s} decision now h := by
    intro saved
    refine ⟨.nobody rfl, ?_⟩
    rw [Terms.deeds_entry_saveRun, List.append_nil]
    have hdecided : (decision.apply run now).Accounts face (Called.deeds log) :=
      h.2.congr (decision.apply_nodes run now) (by rw [decision.apply_context])
    exact hdecided.echoes (Store.save_echoes s.store _)

/-- A run is entered before anything is done for it. -/
theorem Stages.deeds_opens (hbystand : ∀ place s s', c.others place s s' → s.Bystanding id s')
    (e : Engine) (w : Workflow) (payload : Value) (options : RunOptions) {s : World}
    (hid : s.nextRun = id) :
    (deeds face id).Opens (fun log s' => log = [] ∧ s'.store.get? id = none)
      (e.opening w payload options s) (.deeds c face id) where
  before_others {log s₁ s₂} ho h := by
    refine ⟨h.1, Option.eq_none_iff_forall_not_mem.mpr fun run hrun => ?_⟩
    obtain ⟨entry', he', -⟩ := Store.exists_entry? hrun
    obtain ⟨entry, he, -⟩ := (hbystand _ _ _ ho).entry entry' he'
    cases h.2.symm.trans (Store.get?_eq he)
  before_stop _ h := fun run hrun => by cases h.2.symm.trans hrun
  register {log s'} h := by
    intro added
    have hnobody : (Terms.deeds c face id).entry s' added.2 = [] := World.calls_of_nobody rfl
    have hstored : added.2.store.get? s.nextRun = some (e.opening w payload options s) :=
      Store.get?_eq (Store.entry?_register s'.store (e.opening w payload options s))
    refine ⟨.nobody rfl, ⟨hid, fun r hr => ?_⟩, ?_⟩
    · rw [← hid] at hr
      obtain rfl := Option.some.inj (hstored.symm.trans hr)
      exact ⟨rfl, rfl⟩
    · rw [hnobody, h.1]
      exact accounts_nil

end

/-! ## Attempts -/

/-- The others leave alone the tasks, what was sent, and what is stored of a
run. -/
structure World.Apart (id : String) (s s' : World) : Prop extends s.Bystanding id s' where
  tasks : s'.services.tasks = s.services.tasks
  outbox : s'.services.outbox = s.services.outbox

theorem World.Apart.rfl {id : String} {s : World} : s.Apart id s :=
  ⟨.rfl, Eq.refl _, Eq.refl _⟩

theorem World.Apart.trans {id : String} {s s₁ s₂ : World} (h : s.Apart id s₁)
    (h' : s₁.Apart id s₂) : s.Apart id s₂ :=
  ⟨h.toBystanding.trans h'.toBystanding, h'.tasks.trans h.tasks, h'.outbox.trans h.outbox⟩

namespace Driver

section

variable {c : Company World} {id : String}
  (hapart : ∀ place s s', c.others place s s' → s.Apart id s') (d : Driver) {s₀ s : World}

include hapart

theorem holds_pause_apart (due : Due) (h : s₀.Apart id s) :
    (d.pause due).Holds c (fun _ => True) (fun _ s' => s₀.Apart id s') s :=
  fun _ ho => ⟨trivial, fun _ _ => ⟨trivial, h.trans (hapart _ _ _ ho)⟩⟩

/-- Waiting for the end of an attempt changes nothing. -/
theorem holds_awaitEnd_apart (logger : Logger) (finish : Option Finish) (h : s₀.Apart id s) :
    (d.awaitEnd logger finish).Holds c (fun _ => True) (fun _ s' => s₀.Apart id s') s := by
  cases finish with
  | none =>
    refine holds_bind.mpr ((holds_pause_apart hapart d .never h).mono ?_)
    exact fun _ _ hs => holds_done trivial hs
  | some finish =>
    rw [awaitEnd_some]
    refine holds_bind.mpr (Holds.mono ?_ (?_ : (d.lasts finish).Holds c (fun _ => True)
      (fun _ s' => s₀.Apart id s') s))
    · intro wake s' hs
      cases wake with
      | elapsed => exact holds_bind.mpr (holds_read trivial (holds_done trivial hs))
      | cancelled => exact holds_done trivial hs
      | deadline => exact holds_done trivial hs
    · unfold lasts
      cases finish.lasts with
      | none => exact holds_done trivial h
      | some ms => exact holds_bind.mpr (holds_read trivial (holds_pause_apart hapart d _ h))

/-- **An attempt that does not complete its node** has done nothing. -/
theorem holds_attempt_apart {face : Face} {node : Node} {executor : Executor}
    (haccounted : ∀ around services,
      Accounted face node around.now services (executor node around services))
    (run : Run) (logger : Logger) (h : s₀.Apart id s) :
    (d.attempt executor node run logger).Holds c (fun _ => True)
      (fun r s' => r.2.status ≠ .completed → s₀.Apart id s') s := by
  refine holds_bind.mpr ((holds_pause_apart hapart d .nothing h).mono ?_)
  intro wake s₁ h₁
  cases wake with
  | cancelled => exact holds_done trivial fun _ => h₁
  | deadline => exact holds_done trivial fun _ => h₁
  | elapsed =>
    have hanswer := haccounted ⟨run.context, run.id, run.workflowId, s₁.now⟩ s₁.services
    refine ⟨trivial, ?_⟩
    change Holds c _ _ (d.awaitEnd
      (logger.writeAll s₁.now (executor node _ s₁.services).1.opening)
      (executor node _ s₁.services).1.finish)
      { s₁ with services := (executor node _ s₁.services).2 }
    generalize executor node ⟨run.context, run.id, run.workflowId, s₁.now⟩ s₁.services = answer
      at hanswer ⊢
    cases hanswer with
    | @idle attempt htells =>
      refine (holds_awaitEnd_apart hapart d _ attempt.finish h₁).mono ?_
      exact fun _ _ hs _ => hs
    | @called attempt call htells =>
      cases hdeed : (Called.mk call s₁.now s₁.services).deed? with
      | none =>
        obtain ⟨htasks, houtbox⟩ := Called.after_of_none hdeed
        have hcall : s₁.Apart id
            { s₁ with services := (Called.mk call s₁.now s₁.services).after } :=
          ⟨⟨fun _ hf => hf, fun entry he => ⟨entry, he, rfl, rfl⟩⟩, htasks, houtbox⟩
        refine (holds_awaitEnd_apart hapart d _ attempt.finish (h₁.trans hcall)).mono ?_
        exact fun _ _ hs _ => hs
      | some deed =>
        -- the attempt answers at once, so the node completes
        obtain ⟨output, hfinish⟩ := htells.prompt (by rw [hdeed]; rfl)
        rw [hfinish]
        exact ⟨trivial, trivial, fun hv => absurd rfl hv⟩

end

/-- Nor does it leave anything in the context. -/
theorem always_runNode_context (d : Driver) (node : Node) (run : Run) :
    (d.runNode node run).Always fun r => r.2.status ≠ .completed → r.1.context = run.context := by
  rw [runNode_eq]
  have hsave : ∀ run, (save run).Always (·.context = run.context) :=
    fun run s => (Store.save_echoes s.store run).context
  refine fun _ => (hsave _).bind fun run₁ h₁ => always_bind _ fun (number, logger, verdict) => ?_
  refine fun _ => (hsave _).bind ?_
  exact fun run₂ h₂ hv => h₂.trans ((Context.absorb_of_ne _ hv).trans h₁)

end Driver

/-! ## Runs -/

/-- The records that tell all deeds: the one that is returned, and what is
stored while the driver waits. -/
def Process.Presents (q : Process World Run) (t : World) (id : String) (run : Run) : Prop :=
  q = done run ∨ q.wait?.isSome = true ∧ t.store.get? id = some run

/-- What the calls for a run have done since its driver began in a state, beside
its records at this moment. -/
structure Company.Reckons (c : Company World) (face : Face) (id : String) (s : World)
    (q : Process World Run) (t : World) (log : List Called) : Prop where
  presented : ∀ run, q.Presents t id run → run.Accounts face (deeds log)
  /-- At the lock the last deed may be missing in what is stored. -/
  stored : q.AtStop → World.Recounts face id q.wait? log t
  /-- If nobody else touches a task, the last reference shows it as it is. -/
  tasks : ∀ taskId, s.services.tasks.Numbered →
    (∀ place s₁ s₂, c.others place s₁ s₂ → s₁.Avoids taskId s₂) →
    ∀ run, q.Presents t id run →
    ∀ reference, run.context.lastReference? taskId = some reference →
    ∃ task, t.services.tasks.get? taskId = some task ∧ reference.about = task.about face
  /-- If nobody else sends, what was sent is what the deeds have sent. -/
  sent : (∀ place s₁ s₂, c.others place s₁ s₂ →
      s₂.services.outbox.sent = s₁.services.outbox.sent) →
    t.services.outbox.sent =
      s.services.outbox.sent ++ (deeds log).filterMap Deed.notification?

section

variable {c : Company World} {face : Face} {id : String} {s t : World} {log : List Called}

theorem Terms.deeds_assures {α : Type} {p q : Process World α}
    {post : α → List Called → World → Prop} (h : Trace c World.calls p s q t log)
    (hp : p.Assures (.deeds c face id) post [] s) :
    q.Assures (.deeds c face id) post log t := by
  have htrace : Trace (Terms.deeds c face id).toCompany (Terms.deeds c face id).entry p s q t log :=
    h
  exact htrace.assures hp

/-- What a driver has done that keeps to its terms. -/
theorem Company.reckons_of_trace {p q : Process World Run} (h : Trace c World.calls p s q t log)
    (hp : p.Assures (.deeds c face id) (Stages.deeds face id).closed [] s) :
    c.Reckons face id s q t log := by
  have htrace : Trace (Terms.deeds c face id).toCompany (Terms.deeds c face id).entry p s q t log :=
    h
  have hq := Terms.deeds_assures h hp
  have hpresented : ∀ run, q.Presents t id run → run.Accounts face (deeds log) := by
    rintro run (rfl | ⟨hwait, hrun⟩)
    · exact hq
    · have hstop := hq.stop (atStop_of_wait? hwait)
      exact (hstop run hrun).accounts fun deed? hnone => hnone hwait
  refine ⟨hpresented, fun hstop => hq.stop hstop, ?_, ?_⟩
  · intro taskId hnumbered havoids run hrun reference hreference
    have hshelves := htrace.invariant (World.Shelves taskId)
      (fun _ _ _ hown hs => World.Calls.shelves hown hs)
      (fun _ _ _ _ ho hs => (havoids _ _ _ ho).shelves hs) hp
      ⟨hnumbered, fun task htask => by cases htask⟩
    have hlast := (hpresented run hrun).last_reference taskId
    rw [hreference] at hlast
    obtain ⟨task, htask, habout⟩ := Option.map_eq_some_iff.mp hlast.symm
    exact ⟨task, hshelves.last task htask, habout.symm⟩
  · intro hquiet
    have hsent := htrace.invariant (fun log t => t.services.outbox.sent =
      s.services.outbox.sent ++ (deeds log).filterMap Deed.notification?) ?_ ?_ hp
      (List.append_nil _).symm
    · exact hsent
    · intro log₁ s₁ s₂ hown hs
      rw [World.Calls.sent hown, hs, List.append_assoc, ← List.filterMap_append,
        ← Called.deeds_append]
      rfl
    · exact fun place log₁ s₁ s₂ ho hs => (hquiet _ _ _ ho).trans hs

end

/-- **Deeds and records.** A run is executed at once, or it is set off and driven
at any time later, by the executors of all node types. The others may do what
they like but for writing the nodes and the context of the run. At every
moment the records that are presented account for what the calls for the run
have done: each deed is told by one record, in order, and by its reference.
While the run is set off nobody is called.

An attempt that does not complete its node leaves alone the tasks, what was
sent and what is stored of the run, unless the others touch them, and the node
leaves the context as it is. -/
theorem deeds_accounted (e : Engine) (w : Workflow) (payload : Value) (options : RunOptions)
    {face : Face} {c : Company World} {s : World} (hbuiltin : e.executors.AreBuiltin face)
    (hbystand : ∀ place s₁ s₂, c.others place s₁ s₂ → s₁.Bystanding s.nextRun s₂)
    (hnew : s.store.get? s.nextRun = none) :
    (∀ q t log, Trace c World.calls (e.execute w payload options) s q t log →
      c.Reckons face s.nextRun s q t log) ∧
    (∀ q₀ s₁ log₀, Trace c World.calls (e.prepare w payload options) s q₀ s₁ log₀ → log₀ = [] ∧
      ∀ run token, q₀ = done (run, token) → ∀ s₂, s₁.Bystanding s.nextRun s₂ →
      ∀ q t log, Trace c World.calls (e.drive w run token) s₂ q t log →
        c.Reckons face s.nextRun s₂ q t log) ∧
    ∀ (d : Driver) (node : Node) (run : Run), d.executors = e.executors →
      ((d.runNode node run).Always fun r =>
        r.2.status ≠ .completed → r.1.context = run.context) ∧
      ∀ executor, d.executors node.type = some executor →
      ∀ (c' : Company World) (id : String),
        (∀ place s₁ s₂, c'.others place s₁ s₂ → s₁.Apart id s₂) →
      ∀ logger s₁ logger' verdict s₂,
        Course c' (d.attempt executor node run logger) s₁ (done (logger', verdict)) s₂ →
        verdict.status ≠ .completed → s₁.Apart id s₂ := by
  have hsound : (Stages.deeds face s.nextRun).Sound e.executors w (.deeds c face s.nextRun) :=
    Stages.deeds_sound hbystand hbuiltin
  have hopens : (Stages.deeds face s.nextRun).Opens
      (fun log s' => log = [] ∧ s'.store.get? s.nextRun = none)
      (e.opening w payload options s) (.deeds c face s.nextRun) :=
    Stages.deeds_opens hbystand e w payload options rfl
  refine ⟨?_, ?_, ?_⟩
  · intro q t log htrace
    have hexecute := Engine.assures_execute hsound hopens ⟨rfl, hnew⟩
    exact Company.reckons_of_trace htrace hexecute
  · intro q₀ s₁ log₀ htrace₀
    have hprepare := Engine.assures_prepare hsound hopens ⟨rfl, hnew⟩
    have hquiet : (e.prepare w payload options).Does fun s s' => s'.services = s.services := by
      refine Engine.does_prepare ?_ ?_ ?_ e w payload options
      · exact fun _ => rfl
      · exact fun _ _ => rfl
      · exact fun _ _ => rfl
    have hnobody : log₀ = [] := htrace₀.log_eq_nil (fun _ _ => World.calls_of_nobody) hquiet
    refine ⟨hnobody, ?_⟩
    rintro run token rfl s₂ hbetween q t log htrace
    have hs₁ := Terms.deeds_assures htrace₀ hprepare
    rw [hnobody] at hs₁
    have hs₂ : (Stages.deeds face s.nextRun).handedOn run [] s₂ :=
      ⟨hs₁.1, fun hlive => ⟨hbetween.files (hs₁.2 hlive).1, (hs₁.2 hlive).2⟩⟩
    exact Company.reckons_of_trace htrace (Engine.assures_drive hsound token hs₂)
  · intro d node run hexecutors
    refine ⟨d.always_runNode_context node run, ?_⟩
    intro executor hexecutor c' id hapart logger s₁ logger' verdict s₂ hcourse
    rw [hexecutors] at hexecutor
    have hattempt := Driver.holds_attempt_apart hapart d (hbuiltin.accounted hexecutor) run logger
      (World.Apart.rfl (s := s₁))
    exact (hcourse.holds hattempt).2

/-- A task is created and updated, and a notification is sent. -/
def Workflow.errands : Workflow :=
  { (default : Workflow) with
    name := "errands"
    nodes := [
      ⟨"a", .taskCreate, none, .null, [], []⟩,
      ⟨"b", .taskUpdate, none, .ofFields [
        ("taskId", .string "task-1"),
        ("updates", .ofFields [("status", .string "done")])], [], []⟩,
      ⟨"c", .notification, none, .ofFields [
        ("recipients", .ofTexts ["x"]),
        ("message", .string "m")], [], []⟩]
    connections := [⟨"1", "a", "b", none, none⟩, ⟨"2", "b", "c", none, none⟩] }

/-- Timestamps and durations that show nothing. -/
def Time.Face.blind : Face where
  instant _ := ""
  span _ := .null

/-- The executors of all node types under the usual settings. -/
def Engine.blind : Engine where
  executors := Executors.builtin .blind default
  config := default

/-- Nobody else. -/
def Company.alone : Company World where
  signals := World.signals
  others _ s s' := s' = s
  others_refl _ _ := rfl
  others_trans _ _ _ _ h h' := h'.trans h

/-- The result with which a turn has ended. -/
def Outcome.result? {σ α : Type} : Outcome σ α → Option α
  | .ended a => some a
  | _ => none

theorem Outcome.rest_of_result? {σ α : Type} {outcome : Outcome σ α} {a : α}
    (h : outcome.result? = some a) : outcome.rest = done a := by
  cases outcome with
  | ended b =>
    cases h
    rfl
  | waits p => cases h
  | yields p locks => cases h
  | lines p => cases h

/-- An attempt to update a task that there is not. -/
def Process.lostUpdate : Process World (Logger × Verdict) :=
  Driver.attempt ⟨Engine.blind.executors, .errands, 0, none⟩
    (Executor.taskUpdate .blind)
    ⟨"b", .taskUpdate, none, .ofFields [("taskId", .string "task-1")], [], []⟩
    (Engine.blind.opening .errands .null {} {}) (.ofSettings default)

/-- Three deeds and their records; and an update of a task that there is not,
which fails and leaves everything as it is. -/
theorem errands_accounted :
    (∃ run t log, Trace .alone World.calls (Engine.blind.execute .errands .null {}) {} (done run)
        t log ∧
      run.Accounts .blind (deeds log) ∧
      (deeds log).length = 3 ∧ run.context.tasks.map (·.status) = ["todo", "done"] ∧
      (∀ reference, run.context.lastReference? "task-1" = some reference →
        ∃ task, t.services.tasks.get? "task-1" = some task ∧ reference.status = task.status) ∧
      t.services.outbox.sent = (deeds log).filterMap Deed.notification?) ∧
    ∃ logger verdict t, Course .alone Process.lostUpdate {} (done (logger, verdict)) t ∧
      verdict.status = .failed ∧ World.Apart "exec-1" {} t := by
  have hbuiltin : Engine.blind.executors.AreBuiltin .blind :=
    ⟨default, fun _ _ h => h⟩
  obtain ⟨hexecute, -, hattempt⟩ := deeds_accounted Engine.blind .errands .null {}
    (c := .alone) (s := {}) hbuiltin (fun _ _ _ ho => ho ▸ .rfl) rfl
  constructor
  · have hresult : ((Engine.blind.execute .errands .null {}).turn World.signals 128 .free
        {}).outcome.result?.map (fun run => ((run.nodes.filter NodeRun.isDeed).length,
          run.context.tasks.map (·.status))) = some (3, ["todo", "done"]) := by
      decide +kernel
    obtain ⟨run, hrun, hshape⟩ := Option.map_eq_some_iff.mp hresult
    have hcourse := Course.turn (c := .alone) (p := Engine.blind.execute .errands .null {})
      (s := {}) 128 .free .start
    rw [show Company.alone.signals = World.signals from rfl, Outcome.rest_of_result? hrun]
      at hcourse
    obtain ⟨log, htrace⟩ := hcourse.exists_trace World.calls
    have hreckons := hexecute _ _ _ htrace
    have haccounts := hreckons.presented run (Or.inl rfl)
    obtain ⟨hlength, htasks⟩ := Prod.mk.inj hshape
    refine ⟨run, _, log, htrace, haccounts, haccounts.told.length_eq.symm.trans hlength, htasks,
      ?_, ?_⟩
    · intro reference hreference
      obtain ⟨task, htask, habout⟩ := hreckons.tasks "task-1" TaskBook.numbered_empty
        (fun _ _ _ ho => ho ▸ ⟨id, rfl⟩) run (Or.inl rfl) reference hreference
      exact ⟨task, htask, (Prod.mk.inj (Prod.mk.inj habout).2).1⟩
    · exact hreckons.sent fun _ _ _ ho => by rw [ho]
  · have hresult : (Process.lostUpdate.turn World.signals 128 .free {}).outcome.result?.map
        (fun r => r.2.status) = some .failed := by
      decide +kernel
    obtain ⟨⟨logger, verdict⟩, hr, hfailed⟩ := Option.map_eq_some_iff.mp hresult
    have hcourse := Course.turn (c := .alone) (p := Process.lostUpdate) (s := {}) 128 .free .start
    rw [show Company.alone.signals = World.signals from rfl, Outcome.rest_of_result? hr] at hcourse
    refine ⟨logger, verdict, _, hcourse, hfailed, ?_⟩
    refine (hattempt _ _ _ rfl).2 _ rfl .alone "exec-1" (fun _ _ _ ho => ho ▸ .rfl) _ _ _ _ _
      hcourse ?_
    intro hcompleted
    cases hfailed.symm.trans hcompleted

end Automation
