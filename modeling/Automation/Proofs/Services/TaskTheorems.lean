/-
Automation.Proofs.Services.TaskTheorems — what a book of tasks says after any
calls.

Every call brings fields: a creation those of a new task, an update some for
a task that there is. What was `given` to a task in this way determines it
(`TaskRecord.Follows`): its status is the last one that was asked for, and
every other field has the last value that it was given. An update of a task
that there is not fails, and nothing is kept of it, not even when a task gets
that id later.
-/
import Automation.Proofs.Json.FieldTheorems
import Automation.Proofs.Services.CallTheorems

namespace Automation

open Automation.Json (Value Fields)

/-! ## What was given -/

/-- The last value that a key is given. -/
def lastGiven? (key : String) (asked : List Fields) : Option Value :=
  (asked.filterMap fun fields => fields.get? key).getLast?

/-- The last status that is asked for; `null` asks for none. -/
def lastStatus? (asked : List Fields) : Option Value :=
  ((asked.filterMap fun fields => fields.get? "status").filter fun v => !v.isNull).getLast?

/-- A status in words: a string as it is, anything else as JSON. -/
def statusText : Value → String
  | .string s => s
  | v => v.render

theorem lastGiven?_concat (key : String) (asked : List Fields) (fields : Fields) :
    lastGiven? key (asked ++ [fields]) = (fields.get? key).or (lastGiven? key asked) := by
  unfold lastGiven?
  cases h : fields.get? key <;> simp [h]

theorem map_lastStatus?_concat (asked : List Fields) (fields : Fields) :
    (lastStatus? (asked ++ [fields])).map statusText =
      (TaskBook.statusIn fields).or ((lastStatus? asked).map statusText) := by
  unfold lastStatus? TaskBook.statusIn
  cases h : fields.get? "status" with
  | none => simp [h]
  | some v => cases v <;> simp [h, Value.isNull, statusText]

/-- The task is what these fields, given one after the other, make of it. -/
structure TaskRecord.Follows (task : TaskRecord) (asked : List Fields) : Prop where
  status : task.status = ((lastStatus? asked).map statusText).getD "todo"
  fields : ∀ key, task.fields.get? key = if key = "status" then none else lastGiven? key asked
  sorted : task.fields.Sorted

namespace TaskBook

variable {book : TaskBook} {asked : List Fields} {fields updates : Fields} {task : TaskRecord}

theorem create_follows (book : TaskBook) (h : fields.Sorted) (now : Nat) :
    (book.create fields now).1.Follows [fields] where
  status := by
    have hstatus := map_lastStatus?_concat [] fields
    rw [List.nil_append] at hstatus
    rw [hstatus]
    exact congrArg (Option.getD · "todo") Option.or_none.symm
  fields key := by
    have hvalue := lastGiven?_concat key [] fields
    have hnone : lastGiven? key [] = none := rfl
    rw [List.nil_append, hnone, Option.or_none] at hvalue
    rw [hvalue]
    exact Fields.get?_erase _ _ _
  sorted := Fields.erase_sorted _ h

theorem amend_follows (ht : task.Follows asked) (h : updates.Sorted) (now : Nat) :
    (amend task updates now).Follows (asked ++ [updates]) where
  status := by
    rw [map_lastStatus?_concat, amend, ht.status]
    cases statusIn updates <;> rfl
  fields key := by
    rw [amend, (Fields.erase_sorted "status" h).get?_merge, ht.fields, Fields.get?_erase,
      lastGiven?_concat]
    split <;> simp
  sorted := ht.sorted.merge _

/-! ## Calls -/

/-- A call. -/
inductive Change where
  | create (fields : Fields) (now : Nat)
  | update (id : String) (updates : Fields) (now : Nat)

namespace Change

/-- The fields that come with a call. -/
def brings : Change → Fields
  | .create fields _ => fields
  | .update _ updates _ => updates

/-- The fields that come with an update of the task. -/
def updates? (id : String) : Change → Option Fields
  | .create _ _ => none
  | .update id' updates _ => if id' = id then some updates else none

end Change

/-- The book after a call; one that fails leaves it as it is. -/
def apply (book : TaskBook) : Change → TaskBook
  | .create fields now => (book.create fields now).2
  | .update id updates now =>
    match book.update id updates now with
    | .ok (_, book) => book
    | .error _ => book

/-- The book after some calls. -/
def applyAll (book : TaskBook) (changes : List Change) : TaskBook :=
  changes.foldl apply book

/-- What calls give to the task of an id: the fields with which it is created,
when `n` tasks were there before these calls, and those of the updates after
that. -/
def given (series : Series) (id : String) : (n : Nat) → List Change → List Fields
  | _, [] => []
  | n, .create fields _ :: rest =>
    if series.id (n + 1) = id then fields :: rest.filterMap (Change.updates? id)
    else given series id (n + 1) rest
  | n, .update _ _ _ :: rest => given series id n rest

/-- An update fails exactly if there is no such task. -/
theorem update_eq_error_iff {id : String} {now : Nat} {e : UnknownTask} :
    book.update id updates now = .error e ↔ book.get? id = none ∧ e = ⟨id⟩ := by
  unfold update
  cases book.get? id with
  | none => simp [eq_comm]
  | some t => simp

/-- An update changes the task that it is for, if there is one, and is otherwise lost. -/
inductive Updated (book : TaskBook) (id : String) (updates : Fields) (now : Nat) :
    TaskBook → Prop where
  | done {task : TaskRecord} {book' : TaskBook} :
    book.update id updates now = .ok (task, book') → Updated book id updates now book'
  | lost : book.get? id = none → Updated book id updates now book

theorem updated (book : TaskBook) (id : String) (updates : Fields) (now : Nat) :
    Updated book id updates now (book.apply (.update id updates now)) := by
  cases hupdate : book.update id updates now with
  | ok result =>
    have happly : book.apply (.update id updates now) = result.2 := by
      simp only [apply, hupdate]
    exact happly ▸ .done hupdate
  | error e =>
    have happly : book.apply (.update id updates now) = book := by
      simp only [apply, hupdate]
    have hlost := (update_eq_error_iff.mp hupdate).1
    exact happly.symm ▸ .lost hlost

theorem Numbered.apply (h : book.Numbered) (c : Change) : (book.apply c).Numbered := by
  cases c with
  | create fields now => exact h.create fields now
  | update id updates now =>
    have hupdated := book.updated id updates now
    generalize book.apply (.update id updates now) = after at hupdated
    cases hupdated with
    | done hupdate => exact h.update hupdate
    | lost _ => exact h

/-- What the book shows of a task after an update. -/
theorem get?_apply_update (book : TaskBook) (id : String) (updates : Fields) (now : Nat)
    (id' : String) : (book.apply (.update id updates now)).get? id' =
      if id = id' then (book.get? id).map (amend · updates now) else book.get? id' := by
  have hupdated := book.updated id updates now
  generalize book.apply (.update id updates now) = after at hupdated
  cases hupdated with
  | done hupdate =>
    obtain ⟨old, hold, hid, rfl, -⟩ := exists_of_update hupdate
    have hget := get?_update hupdate id'
    have hid' : (amend old updates now).id = id := hid
    rw [hget, hid', hold, Option.map_some]
  | lost hnone =>
    split
    · next heq => rw [← heq, hnone, Option.map_none]
    · rfl

/-- An update makes no new task. -/
theorem apply_update_size (book : TaskBook) (id : String) (updates : Fields) (now : Nat) :
    (book.apply (.update id updates now)).series = book.series ∧
      (book.apply (.update id updates now)).size = book.size := by
  have hupdated := book.updated id updates now
  generalize book.apply (.update id updates now) = after at hupdated
  cases hupdated with
  | done hupdate =>
    obtain ⟨old, -, -, -, rfl⟩ := exists_of_update hupdate
    exact ⟨rfl, List.length_map _⟩
  | lost _ => exact ⟨rfl, rfl⟩

/-! ## Histories -/

theorem applyAll_cons (book : TaskBook) (c : Change) (rest : List Change) :
    book.applyAll (c :: rest) = (book.apply c).applyAll rest := rfl

theorem Numbered.applyAll (h : book.Numbered) (changes : List Change) :
    (book.applyAll changes).Numbered := by
  induction changes generalizing book with
  | nil => exact h
  | cons c rest ih => exact ih (h.apply c)

/-- A task that there is goes on to follow what it is given. -/
theorem Numbered.follows_updates (h : book.Numbered) {changes : List Change}
    (hsorted : ∀ c ∈ changes, c.brings.Sorted) {id : String} (hget : book.get? id = some task)
    (ht : task.Follows asked) :
    ∃ task', (book.applyAll changes).get? id = some task' ∧
      task'.Follows (asked ++ changes.filterMap (Change.updates? id)) := by
  induction changes generalizing book task asked with
  | nil => exact ⟨task, hget, by simpa using ht⟩
  | cons c rest ih =>
    obtain ⟨hc, hrest⟩ := List.forall_mem_cons.mp hsorted
    rw [applyAll_cons]
    cases c with
    | create fields now =>
      -- the next id is that of no task
      have hnext : (book.create fields now).1.id ≠ id := by
        rintro rfl
        cases h.get?_next.symm.trans hget
      have hshow := h.get?_create fields now id
      rw [if_neg hnext, hget] at hshow
      exact ih (h.create fields now) hrest hshow ht
    | update id' updates now =>
      have hshow := get?_apply_update book id' updates now id
      have hnumbered : (book.apply (.update id' updates now)).Numbered := h.apply _
      by_cases heq : id' = id
      · subst heq
        rw [if_pos rfl, hget, Option.map_some] at hshow
        have hgiven : asked ++ (Change.update id' updates now :: rest).filterMap
            (Change.updates? id') = asked ++ [updates] ++ rest.filterMap (Change.updates? id') := by
          simp [Change.updates?]
        rw [hgiven]
        exact ih hnumbered hrest hshow (amend_follows ht hc now)
      · have hgiven : (Change.update id' updates now :: rest).filterMap (Change.updates? id) =
            rest.filterMap (Change.updates? id) := by
          simp [Change.updates?, heq]
        rw [hgiven]
        exact ih hnumbered hrest (hshow.trans (by rw [if_neg heq, hget])) ht

/-- A task that there is not yet follows what it is given from its creation on. -/
theorem Numbered.follows_given (h : book.Numbered) {changes : List Change}
    (hsorted : ∀ c ∈ changes, c.brings.Sorted) (id : String) (hget : book.get? id = none) :
    given book.series id book.size changes = [] ∧ (book.applyAll changes).get? id = none ∨
      ∃ task, (book.applyAll changes).get? id = some task ∧
        task.Follows (given book.series id book.size changes) ∧
        given book.series id book.size changes ≠ [] := by
  induction changes generalizing book with
  | nil => exact .inl ⟨rfl, hget⟩
  | cons c rest ih =>
    obtain ⟨hc, hrest⟩ := List.forall_mem_cons.mp hsorted
    rw [applyAll_cons]
    cases c with
    | create fields now =>
      have hshow := h.get?_create fields now id
      have hnumbered : (book.create fields now).2.Numbered := h.create fields now
      by_cases hnext : book.series.id (book.size + 1) = id
      · rw [given, if_pos hnext]
        obtain ⟨task, htask, hfollows⟩ := hnumbered.follows_updates hrest
          (hshow.trans (if_pos hnext)) (create_follows book hc now)
        exact .inr ⟨task, htask, hfollows, List.cons_ne_nil _ _⟩
      · rw [given, if_neg hnext]
        have hsize : (book.create fields now).2.size = book.size + 1 := List.length_append
        have hlater := ih hnumbered hrest (hshow.trans ((if_neg hnext).trans hget))
        rwa [hsize] at hlater
    | update id' updates now =>
      obtain ⟨hseries, hsize⟩ := book.apply_update_size id' updates now
      have hshow := get?_apply_update book id' updates now id
      have hlost : (book.apply (.update id' updates now)).get? id = none := by
        rw [hshow]
        split
        · next heq => rw [heq, hget, Option.map_none]
        · exact hget
      have hlater := ih (h.apply _) hrest hlost
      rwa [hseries, hsize] at hlater

/-- A task is found under its id. -/
theorem Numbered.get?_of_mem (h : book.Numbered) (htask : task ∈ book.records) :
    book.get? task.id = some task := by
  obtain ⟨i, hi⟩ := List.getElem?_of_mem htask
  cases hget : book.get? task.id with
  | none =>
    have hnot := List.find?_eq_none.mp hget task htask
    exact absurd (beq_self_eq_true _) hnot
  | some found =>
    obtain ⟨j, hj⟩ := List.getElem?_of_mem (List.mem_of_find?_eq_some hget)
    have hid : found.id = task.id := by simpa using List.find?_some hget
    rw [h i task hi, h j found hj, Series.id_inj] at hid
    obtain rfl : j = i := by omega
    rw [← hi, hj]

/-- **A book of tasks says what it was told.** After any calls on an empty
book, the tasks that there are are those that were created, each found under
its id, and each follows what was given to it: the status is the last one but
`null` that it was given, a string as it is and anything else as JSON, and
`todo` if there was none; every other key has the last value that it was
given; and no task keeps a field `status`. One more update of a task that
there is succeeds, and changes no other task; one of a task that there is not
fails and changes nothing. -/
theorem tasks_follow_calls (series : Series) {changes : List Change}
    (h : ∀ c ∈ changes, c.brings.Sorted) :
    (∀ task ∈ (applyAll { series } changes).records,
      (applyAll { series } changes).get? task.id = some task ∧
      task.fields.get? "status" = none) ∧
    (∀ id, (applyAll { series } changes).get? id = none ↔ given series id 0 changes = []) ∧
    (∀ id task, (applyAll { series } changes).get? id = some task →
      task.Follows (given series id 0 changes)) ∧
    (∀ id updates now,
      ((applyAll { series } changes).get? id = none ↔
        (applyAll { series } changes).update id updates now = .error ⟨id⟩) ∧
      ((applyAll { series } changes).get? id = none →
        (applyAll { series } changes).apply (.update id updates now) =
          applyAll { series } changes) ∧
      ∀ id', id' ≠ id → ((applyAll { series } changes).apply (.update id updates now)).get? id' =
        (applyAll { series } changes).get? id') := by
  have hempty : ({ series } : TaskBook).Numbered := fun i task htask => by cases htask
  have hnumbered := hempty.applyAll changes
  have hgiven := fun id => hempty.follows_given h id rfl
  have hfollows : ∀ id task, (applyAll { series } changes).get? id = some task →
      task.Follows (given series id 0 changes) := by
    intro id task htask
    rcases hgiven id with ⟨-, hnone⟩ | ⟨task', htask', hfollows, -⟩
    · cases htask.symm.trans hnone
    · obtain rfl : task = task' := Option.some.inj (htask.symm.trans htask')
      exact hfollows
  refine ⟨fun task htask => ?_, fun id => ?_, hfollows, fun id updates now => ⟨?_, ?_, ?_⟩⟩
  · have hget := hnumbered.get?_of_mem htask
    exact ⟨hget, by rw [(hfollows _ task hget).fields, if_pos rfl]⟩
  · rcases hgiven id with ⟨hnil, hnone⟩ | ⟨task, htask, -, hne⟩
    · exact iff_of_true hnone hnil
    · exact iff_of_false (by simp [htask]) hne
  · exact ⟨fun hnone => update_eq_error_iff.mpr ⟨hnone, rfl⟩,
      fun herror => (update_eq_error_iff.mp herror).1⟩
  · intro hnone
    have hupdated := updated (applyAll { series } changes) id updates now
    generalize apply _ _ = after at hupdated ⊢
    cases hupdated with
    | done hupdate =>
      obtain ⟨old, hold, -⟩ := exists_of_update hupdate
      cases hold.symm.trans hnone
    | lost _ => rfl
  · intro id' hne
    rw [get?_apply_update, if_neg (Ne.symm hne)]

/-- A task whose status is set to a number, and an update that comes before its task. -/
def calls : List Change := [
  .create [("status", .null), ("title", .string "a")] 0,
  .update "task-2" [("title", .string "b")] 1,
  .update "task-1" [("status", .ofNat 3), ("title", .null)] 2,
  .create [] 3,
  .update "task-1" [("status", .null)] 4]

theorem tasks_follow_calls_of_two :
    (∀ c ∈ calls, c.brings.Sorted) ∧
    (applyAll { series := { start := "task-" } } calls).get? "task-3" = none ∧
    (∀ task, (applyAll { series := { start := "task-" } } calls).get? "task-1" = some task →
      task.status = "3" ∧ task.fields.get? "title" = some .null) ∧
    ∀ task, (applyAll { series := { start := "task-" } } calls).get? "task-2" = some task →
      task.status = "todo" ∧ task.fields.get? "title" = none := by
  have hsorted : ∀ c ∈ calls, c.brings.Sorted := by
    simp only [calls, List.forall_mem_cons, Change.brings]
    exact ⟨List.pairwise_pair.mpr (by decide), List.pairwise_singleton _ _,
      List.pairwise_pair.mpr (by decide), List.Pairwise.nil, List.pairwise_singleton _ _,
      List.forall_mem_nil _⟩
  have hfirst : given { start := "task-" } "task-1" 0 calls =
      [[("status", .null), ("title", .string "a")], [("status", .ofNat 3), ("title", .null)],
        [("status", .null)]] := by rfl
  have hsecond : given { start := "task-" } "task-2" 0 calls = [[]] := by rfl
  obtain ⟨-, hnone, hfollows, -⟩ := tasks_follow_calls { start := "task-" } hsorted
  refine ⟨hsorted, (hnone _).mpr rfl, fun task htask => ?_, fun task htask => ?_⟩
  · have h := hfollows _ _ htask
    rw [hfirst] at h
    exact ⟨h.status, h.fields "title"⟩
  · have h := hfollows _ _ htask
    rw [hsecond] at h
    exact ⟨h.status, h.fields "title"⟩

end TaskBook

end Automation
