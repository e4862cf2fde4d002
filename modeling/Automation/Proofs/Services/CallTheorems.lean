/-
Automation.Proofs.Services.CallTheorems — the calls of collaborators, and
what they change here.

`Called` is a call of a collaborator as it was made: when, and of which
collaborators. A call may be a `Deed`: a task was created or updated, or a
notification was sent. `Called.after` says what the collaborators are after
the call. Every call is entered in the journal, and nothing but a deed
changes the tasks and what was sent (`after_of_none`).

The tasks of a book are `Numbered` in the order of their creation, so a new
task never takes the place of another one, and the book shows of each task
what the last deed has made of it (`Called.get?_after`).
-/
import Automation.Services.Basic
import Automation.Run.Context
import Automation.Proofs.Services.SeriesTheorems

namespace Automation

open Automation.Json (Value Fields)

/-! ## The book of tasks -/

namespace TaskBook

variable {book book' : TaskBook} {task : TaskRecord} {id : String} {updates : Fields} {now : Nat}

/-- The ids of the tasks are those of the series, in order. -/
def Numbered (book : TaskBook) : Prop :=
  ∀ i task, book.records[i]? = some task → task.id = book.series.id (i + 1)

theorem numbered_empty : ({} : TaskBook).Numbered := by
  intro i task h
  cases h

/-- The next id of a book is that of no task. -/
theorem Numbered.get?_next (h : book.Numbered) :
    book.get? (book.series.id (book.size + 1)) = none := by
  refine List.find?_eq_none.mpr ?_
  intro task htask
  obtain ⟨i, hi⟩ := List.getElem?_of_mem htask
  obtain ⟨hlt, -⟩ := List.getElem?_eq_some_iff.mp hi
  rw [h i task hi, beq_iff_eq, Series.id_inj]
  unfold size
  omega

theorem Numbered.create (h : book.Numbered) (fields : Fields) (now : Nat) :
    (book.create fields now).2.Numbered := by
  intro i task hi
  rcases Nat.lt_trichotomy i book.records.length with hlt | rfl | hgt
  · exact h i task ((List.getElem?_append_left hlt).symm.trans hi)
  · rw [show (book.create fields now).2.records = book.records ++ [(book.create fields now).1]
      from rfl, List.getElem?_concat_length, Option.some.injEq] at hi
    rw [← hi]
    rfl
  · rw [List.getElem?_eq_none] at hi
    · cases hi
    · rw [show (book.create fields now).2.records.length = book.records.length + 1 from
        List.length_append]
      exact hgt

/-- What the book shows after a task was created. -/
theorem Numbered.get?_create (h : book.Numbered) (fields : Fields) (now : Nat) (id : String) :
    (book.create fields now).2.get? id =
      if (book.create fields now).1.id = id then some (book.create fields now).1
      else book.get? id := by
  have hfind : (book.create fields now).2.get? id = (book.get? id).or
      (List.find? (fun t => t.id == id) [(book.create fields now).1]) := List.find?_append
  rw [hfind]
  split
  · next heq =>
    have hnext : book.series.id (book.size + 1) = id := heq
    rw [← hnext, h.get?_next, Option.none_or]
    exact List.find?_cons_of_pos (p := fun t : TaskRecord => t.id == book.series.id (book.size + 1))
      (beq_self_eq_true _)
  · next hne => rw [List.find?_cons_of_neg (by simpa using hne), List.find?_nil, Option.or_none]

/-- How a task is updated. -/
theorem exists_of_update (h : book.update id updates now = .ok (task, book')) :
    ∃ old, book.get? id = some old ∧ old.id = id ∧ task = amend old updates now ∧
      book' = { book with
        records := book.records.map fun other => if other.id == id then task else other } := by
  unfold update at h
  split at h
  · next old hold =>
    cases h
    exact ⟨old, hold, by simpa using List.find?_some hold, rfl, rfl⟩
  · cases h

theorem Numbered.update (h : book.Numbered)
    (hupdate : book.update id updates now = .ok (task, book')) : book'.Numbered := by
  obtain ⟨old, -, hid, rfl, rfl⟩ := exists_of_update hupdate
  intro i task hi
  rw [List.getElem?_map] at hi
  obtain ⟨other, hother, rfl⟩ := Option.map_eq_some_iff.mp hi
  rw [← h i other hother]
  split
  · next heq => exact hid.trans (beq_iff_eq.mp heq).symm
  · rfl

/-- What the book shows after a task was updated. -/
theorem get?_update (h : book.update id updates now = .ok (task, book')) (id' : String) :
    book'.get? id' = if task.id = id' then some task else book.get? id' := by
  obtain ⟨old, hold, hid, htask, rfl⟩ := exists_of_update h
  have htaskId : task.id = id := htask ▸ hid
  rw [htaskId]
  unfold get?
  rw [List.find?_map]
  split
  · next heq =>
    subst heq
    have hsame : (fun t : TaskRecord => t.id == id) ∘
        (fun other => if other.id == id then task else other) = fun other => other.id == id := by
      funext other
      by_cases hother : other.id = id
      · simp [hother, htaskId]
      · simp [hother]
    rw [hsame, show book.records.find? (fun other => other.id == id) = some old from hold]
    simp [hid]
  · next hne =>
    have hsame : (fun t : TaskRecord => t.id == id') ∘
        (fun other => if other.id == id then task else other) = fun other => other.id == id' := by
      funext other
      by_cases hother : other.id = id
      · simp [hother, htaskId]
      · simp [hother]
    rw [hsame]
    refine Option.map_congr (fun other hother => ?_) |>.trans Option.map_id'
    have hid' : other.id = id' := by simpa using List.find?_some hother
    rw [if_neg (by simpa [hid'] using Ne.symm hne)]

end TaskBook

/-! ## Deeds -/

/-- What is done by a call and kept here. -/
inductive Deed where
  | task (action : TaskAction) (record : TaskRecord)
  | sent (notification : Notification) (receipt : Receipt)
  deriving Repr, Inhabited

/-- The task that was created or updated. -/
def Deed.record? : Deed → Option TaskRecord
  | .task _ record => some record
  | .sent _ _ => none

/-- The notification that was sent. -/
def Deed.notification? : Deed → Option Notification
  | .task _ _ => none
  | .sent notification _ => some notification

/-- A call as it was made. -/
structure Called where
  call : Call
  now : Nat
  /-- The collaborators before the call. -/
  services : Services
  deriving Repr, Inhabited

namespace Called

/-- What was done by the call, and the collaborators after it. -/
def result (c : Called) : Option Deed × Services :=
  match c.call with
  | .createTask fields =>
    let (task, services) := c.services.createTask fields c.now
    (some (.task .created task), services)
  | .updateTask id updates =>
    match c.services.updateTask id updates c.now with
    | (.ok task, services) => (some (.task .updated task), services)
    | (.error _, services) => (none, services)
  | .notify n =>
    match c.services.notify n c.now with
    | (.ok receipt, services) => (some (.sent n receipt), services)
    | (.error _, services) => (none, services)
  | .rules actionType parameters => (none, (c.services.dispatch actionType parameters).2)
  | .web request => (none, (c.services.fetch request).2)
  | .scripts request => (none, (c.services.runScript request).2)

/-- What was done by the call. -/
def deed? (c : Called) : Option Deed :=
  c.result.1

/-- The collaborators after the call. -/
def after (c : Called) : Services :=
  c.result.2

/-- What becomes of the tasks and of what was sent. -/
inductive Effect (s : Services) (now : Nat) : Option Deed → TaskBook → Outbox → Prop where
  | created (fields : Fields) :
    Effect s now (some (.task .created (s.tasks.create fields now).1))
      (s.tasks.create fields now).2 s.outbox
  | updated {id : String} {updates : Fields} {task : TaskRecord} {tasks : TaskBook} :
    s.tasks.update id updates now = .ok (task, tasks) →
    Effect s now (some (.task .updated task)) tasks s.outbox
  | sent {notification : Notification} {receipt : Receipt} {outbox : Outbox} :
    s.outbox.send notification now = .ok (receipt, outbox) →
    Effect s now (some (.sent notification receipt)) s.tasks outbox
  | nothing : Effect s now none s.tasks s.outbox

theorem effect (c : Called) : Effect c.services c.now c.deed? c.after.tasks c.after.outbox := by
  obtain ⟨call, now, services⟩ := c
  unfold deed? after result
  cases call with
  | createTask fields => exact .created fields
  | updateTask id updates =>
    dsimp only
    unfold Services.updateTask
    cases hupdate : services.tasks.update id updates now with
    | ok result => exact .updated hupdate
    | error e => exact .nothing
  | notify n =>
    dsimp only
    unfold Services.notify
    cases hsend : services.outbox.send n now with
    | ok result => exact .sent hsend
    | error e => exact .nothing
  | rules actionType parameters => exact .nothing
  | web request => exact .nothing
  | scripts request => exact .nothing

/-- Every call is entered in the journal. -/
theorem after_calls (c : Called) : c.after.calls = c.services.calls ++ [c.call] := by
  obtain ⟨call, now, services⟩ := c
  unfold after result
  cases call with
  | updateTask id updates =>
    dsimp only
    unfold Services.updateTask
    cases services.tasks.update id updates now <;> rfl
  | notify n =>
    dsimp only
    unfold Services.notify
    cases services.outbox.send n now <;> rfl
  | createTask fields => rfl
  | rules actionType parameters => rfl
  | web request => rfl
  | scripts request => rfl

variable {c : Called}

/-- A call that is no deed leaves the tasks and what was sent as they are. -/
theorem after_of_none (h : c.deed? = none) :
    c.after.tasks = c.services.tasks ∧ c.after.outbox = c.services.outbox := by
  have heffect := c.effect
  rw [h] at heffect
  generalize c.after.tasks = tasks, c.after.outbox = outbox at heffect
  cases heffect
  exact ⟨rfl, rfl⟩

theorem numbered_after (h : c.services.tasks.Numbered) : c.after.tasks.Numbered := by
  have heffect := c.effect
  generalize c.deed? = deed, c.after.tasks = tasks, c.after.outbox = outbox at heffect
  cases heffect with
  | created fields => exact h.create fields c.now
  | updated hupdate => exact h.update hupdate
  | sent _ => exact h
  | nothing => exact h

/-- What the book shows of a task after a call. -/
theorem get?_after (h : c.services.tasks.Numbered) (id : String) :
    c.after.tasks.get? id =
      ((c.deed?.bind Deed.record?).filter (·.id == id)).or (c.services.tasks.get? id) := by
  have hput : ∀ task : TaskRecord,
      ((some task).filter (·.id == id)).or (c.services.tasks.get? id) =
        if task.id = id then some task else c.services.tasks.get? id := by
    intro task
    by_cases htask : task.id = id <;> simp [Option.filter, htask]
  have heffect := c.effect
  generalize c.deed? = deed, c.after.tasks = tasks, c.after.outbox = outbox at heffect
  cases heffect with
  | created fields => exact (h.get?_create fields c.now id).trans (hput _).symm
  | updated hupdate => exact (TaskBook.get?_update hupdate id).trans (hput _).symm
  | sent _ => rfl
  | nothing => rfl

/-- What is sent is sent by deeds. -/
theorem sent_after (c : Called) : c.after.outbox.sent =
    c.services.outbox.sent ++ (c.deed?.bind Deed.notification?).toList := by
  have heffect := c.effect
  generalize c.deed? = deed, c.after.tasks = tasks, c.after.outbox = outbox at heffect
  cases heffect with
  | created fields => exact (List.append_nil _).symm
  | updated hupdate => exact (List.append_nil _).symm
  | sent hsend =>
    unfold Outbox.send at hsend
    split at hsend
    · cases hsend
    · cases hsend
      rfl
  | nothing => exact (List.append_nil _).symm

/-- The deeds among calls. -/
def deeds (log : List Called) : List Deed :=
  log.filterMap deed?

theorem deeds_append (log log' : List Called) : deeds (log ++ log') = deeds log ++ deeds log' :=
  List.filterMap_append

theorem deeds_snoc (log : List Called) (c : Called) :
    deeds (log ++ [c]) = deeds log ++ c.deed?.toList := by
  have hone : deeds [c] = c.deed?.toList := by
    cases hdeed : c.deed? <;> simp [deeds, hdeed]
  rw [deeds_append, hone]

end Called

end Automation
