/-
Automation.Proofs.Run.StoreTheorems — what the operations of the store do
to the entry of a run.

Each operation concerns the entry of one id and leaves all others as they
are. `save` keeps the token of the entry and fires none; once an entry is
cancelled it stays so, with its dates (`merge_of_cancelled`). `cancel` says
true exactly if there is an entry that has not ended (`cancel_fst`), and if
it says false, it has changed nothing (`cancel_of_false`).
-/
import Automation.Run.Store

namespace Automation

/-! ## Records -/

namespace Run

@[simp] theorem finish_id (r : Run) (status : RunStatus) (now : Nat) :
    (r.finish status now).id = r.id := rfl

@[simp] theorem finish_nodes (r : Run) (status : RunStatus) (now : Nat) :
    (r.finish status now).nodes = r.nodes := rfl

@[simp] theorem finish_status (r : Run) (status : RunStatus) (now : Nat) :
    (r.finish status now).status = status := rfl

@[simp] theorem fail_nodes (r : Run) (error : String) (now : Nat) :
    (r.fail error now).nodes = r.nodes := rfl

@[simp] theorem fail_status (r : Run) (error : String) (now : Nat) :
    (r.fail error now).status = .failed := rfl

theorem cancel_of_terminal {r : Run} (h : r.status.isTerminal = true) (now : Nat) :
    r.cancel now = r := by
  simp [cancel, cancel?, h]

theorem cancel_of_live {r : Run} (h : r.status.isTerminal = false) (now : Nat) :
    r.cancel now = r.finish .cancelled now := by
  simp [cancel, cancel?, h]

@[simp] theorem cancel_id (r : Run) (now : Nat) : (r.cancel now).id = r.id := by
  cases h : r.status.isTerminal with
  | true => rw [cancel_of_terminal h]
  | false => rw [cancel_of_live h, finish_id]

@[simp] theorem cancel_nodes (r : Run) (now : Nat) : (r.cancel now).nodes = r.nodes := by
  cases h : r.status.isTerminal with
  | true => rw [cancel_of_terminal h]
  | false => rw [cancel_of_live h, finish_nodes]

@[simp] theorem cancel_context (r : Run) (now : Nat) : (r.cancel now).context = r.context := by
  cases h : r.status.isTerminal with
  | true => rw [cancel_of_terminal h]
  | false => rw [cancel_of_live h]; rfl

@[simp] theorem cancel_metadata (r : Run) (now : Nat) : (r.cancel now).metadata = r.metadata := by
  cases h : r.status.isTerminal with
  | true => rw [cancel_of_terminal h]
  | false => rw [cancel_of_live h]; rfl

/-- Whoever cancels a run has one that has ended. -/
theorem cancel_terminal (r : Run) (now : Nat) : (r.cancel now).status.isTerminal = true := by
  cases h : r.status.isTerminal with
  | true => rw [cancel_of_terminal h, h]
  | false => rw [cancel_of_live h]; rfl

/-- Two records say the same of the end of a run. -/
structure EndsAs (r r' : Run) : Prop where
  status : r.status = r'.status
  completedAt : r.completedAt = r'.completedAt
  duration : r.duration = r'.duration

theorem EndsAs.rfl {r : Run} : r.EndsAs r :=
  ⟨Eq.refl _, Eq.refl _, Eq.refl _⟩

theorem EndsAs.trans {r r' r'' : Run} (h : r.EndsAs r') (h' : r'.EndsAs r'') : r.EndsAs r'' :=
  ⟨h.status.trans h'.status, h.completedAt.trans h'.completedAt, h.duration.trans h'.duration⟩

end Run

namespace Store

/-! ## Records beside the stored one -/

@[simp] theorem merge_id (stored run : Run) : (merge stored run).id = run.id := by
  unfold merge
  split <;> rfl

@[simp] theorem merge_nodes (stored run : Run) : (merge stored run).nodes = run.nodes := by
  unfold merge
  split <;> rfl

/-- A run that is stored as cancelled stays so, with its dates. -/
theorem merge_of_cancelled {stored run : Run} (h : stored.status = .cancelled) :
    (merge stored run).EndsAs stored := by
  simp only [merge, h, beq_self_eq_true, if_true]
  exact ⟨h.symm, rfl, rfl⟩

/-- A run that is not stored as cancelled becomes what the driver says. -/
theorem merge_of_ne {stored run : Run} (h : stored.status ≠ .cancelled) : merge stored run = run := by
  simp [merge, h]

theorem merge_status (stored run : Run) :
    (merge stored run).status = run.status ∨ (merge stored run).status = .cancelled := by
  by_cases h : stored.status = .cancelled
  · exact Or.inr ((merge_of_cancelled h).status.trans h)
  · exact Or.inl (by rw [merge_of_ne h])

/-! ## Entries -/

/-- The entry that was set is found. -/
theorem find?_place (e : StoredRun) (entries : List StoredRun) :
    (place e entries).find? (fun f => f.run.id == e.run.id) = some e := by
  induction entries with
  | nil => simp [place]
  | cons f rest ih =>
    unfold place
    by_cases h : f.run.id = e.run.id
    · simp [h]
    · simp [h, ih]

/-- All other entries stay. -/
theorem find?_place_ne {e : StoredRun} {id : String} (h : e.run.id ≠ id)
    (entries : List StoredRun) :
    (place e entries).find? (fun f => f.run.id == id) =
      entries.find? fun f => f.run.id == id := by
  induction entries with
  | nil => simp [place, h]
  | cons f rest ih =>
    unfold place
    by_cases hf : f.run.id = e.run.id
    · simp [hf, h]
    · rw [if_neg (by simpa using hf), List.find?_cons, List.find?_cons, ih]

theorem mem_place {e f : StoredRun} : ∀ {entries : List StoredRun}, f ∈ place e entries →
    f = e ∨ f ∈ entries
  | [], h => by simpa [place] using h
  | g :: rest, h => by
    unfold place at h
    split at h
    · simp only [List.mem_cons] at h ⊢
      exact h.imp_right Or.inr
    · rcases List.mem_cons.mp h with rfl | h
      · exact Or.inr List.mem_cons_self
      · exact (mem_place h).imp_right (List.mem_cons_of_mem _)

theorem entry?_id {s : Store} {id : String} {e : StoredRun} (h : s.entry? id = some e) :
    e.run.id = id := by
  unfold entry? at h
  simpa using List.find?_some h

theorem get?_eq {s : Store} {id : String} {e : StoredRun} (h : s.entry? id = some e) :
    s.get? id = some e.run := by
  rw [get?, h, Option.map_some]

theorem exists_entry? {s : Store} {id : String} {run : Run} (h : s.get? id = some run) :
    ∃ e, s.entry? id = some e ∧ e.run = run := by
  unfold get? at h
  exact Option.map_eq_some_iff.mp h

/-- Registering a run enters it under a new token. -/
theorem entry?_register (s : Store) (run : Run) :
    entry? (s.register run).2 run.id = some ⟨run, s.tokens⟩ :=
  find?_place ⟨run, s.tokens⟩ s.entries

theorem entry?_register_ne {s : Store} {run : Run} {id : String} (h : run.id ≠ id) :
    entry? (s.register run).2 id = s.entry? id :=
  find?_place_ne h s.entries

@[simp] theorem register_fired (s : Store) (run : Run) : (s.register run).2.fired = s.fired := rfl

/-! ## Handing in -/

/-- What is handed in for a run that is known. -/
theorem save_of_entry {s : Store} {run : Run} {e : StoredRun} (h : s.entry? run.id = some e) :
    s.save run = (merge e.run run,
      { s with entries := place ⟨merge e.run run, e.token⟩ s.entries }) := by
  simp only [save, h]

theorem save_of_none {s : Store} {run : Run} (h : s.entry? run.id = none) :
    s.save run = (run, (s.register run).2) := by
  simp only [save, h]

/-- What is handed back is stored, under the token of the run. -/
theorem entry?_save {s : Store} {run : Run} {e : StoredRun} (h : s.entry? run.id = some e) :
    entry? (s.save run).2 run.id = some ⟨(s.save run).1, e.token⟩ := by
  rw [save_of_entry h]
  have hplace := find?_place ⟨merge e.run run, e.token⟩ s.entries
  rwa [merge_id] at hplace

theorem entry?_save_ne {s : Store} {run : Run} {id : String} (h : run.id ≠ id) :
    entry? (s.save run).2 id = s.entry? id := by
  cases he : s.entry? run.id with
  | none => rw [save_of_none he, entry?_register_ne h]
  | some e =>
    rw [save_of_entry he]
    exact find?_place_ne (by rwa [merge_id]) s.entries

/-- What is handed back for a run that is known. -/
theorem save_fst {s : Store} {run r : Run} (h : s.get? run.id = some r) :
    (s.save run).1 = merge r run := by
  obtain ⟨e, he, rfl⟩ := exists_entry? h
  rw [save_of_entry he]

/-- What is handed back is stored. -/
theorem get?_save (s : Store) (run : Run) : get? (s.save run).2 run.id = some (s.save run).1 := by
  cases he : s.entry? run.id with
  | none =>
    rw [save_of_none he]
    exact get?_eq (entry?_register s run)
  | some e => exact get?_eq (entry?_save he)

theorem get?_save_of_known {s : Store} {run r : Run} (h : s.get? run.id = some r) :
    get? (s.save run).2 run.id = some (merge r run) := by
  rw [get?_save, save_fst h]

@[simp] theorem save_fired (s : Store) (run : Run) : (s.save run).2.fired = s.fired := by
  cases he : s.entry? run.id with
  | none => rw [save_of_none he, register_fired]
  | some e => rw [save_of_entry he]

@[simp] theorem save_id (s : Store) (run : Run) : (s.save run).1.id = run.id := by
  cases he : s.entry? run.id with
  | none => rw [save_of_none he]
  | some e => rw [save_of_entry he, merge_id]

@[simp] theorem save_nodes (s : Store) (run : Run) : (s.save run).1.nodes = run.nodes := by
  cases he : s.entry? run.id with
  | none => rw [save_of_none he]
  | some e => rw [save_of_entry he, merge_nodes]

theorem save_status (s : Store) (run : Run) :
    (s.save run).1.status = run.status ∨ (s.save run).1.status = .cancelled := by
  cases he : s.entry? run.id with
  | none => exact Or.inl (by rw [save_of_none he])
  | some e => rw [save_of_entry he]; exact merge_status e.run run

/-! ## Cancelling -/

/-- Cancelling a run that has not ended. -/
theorem cancel_of_live {s : Store} {id : String} {e : StoredRun} (h : s.entry? id = some e)
    (hlive : e.run.status.isTerminal = false) (now : Nat) :
    s.cancel id now = (true, { s with
      entries := place ⟨e.run.finish .cancelled now, e.token⟩ s.entries
      fired := e.token :: s.fired }) := by
  simp [cancel, h, Run.cancel?, hlive]

/-- Cancelling a run that has ended does nothing. -/
theorem cancel_of_terminal {s : Store} {id : String} {e : StoredRun} (h : s.entry? id = some e)
    (hend : e.run.status.isTerminal = true) (now : Nat) : s.cancel id now = (false, s) := by
  simp [cancel, h, Run.cancel?, hend]

theorem cancel_of_none {s : Store} {id : String} (h : s.entry? id = none) (now : Nat) :
    s.cancel id now = (false, s) := by
  simp [cancel, h]

/-- **When cancelling says true**: if the run is known and has not ended. -/
theorem cancel_fst {s : Store} {id : String} {now : Nat} :
    (s.cancel id now).1 = true ↔ ∃ run, s.get? id = some run ∧ run.status.isTerminal = false := by
  cases he : s.entry? id with
  | none => simp [cancel_of_none he, get?, he]
  | some e =>
    cases hs : e.run.status.isTerminal with
    | true => simp [cancel_of_terminal he hs, get?, he, hs]
    | false => simp [cancel_of_live he hs, get?, he, hs]

/-- Cancelling that says false has changed nothing. -/
theorem cancel_of_false {s : Store} {id : String} {now : Nat} (h : (s.cancel id now).1 = false) :
    (s.cancel id now).2 = s := by
  cases he : s.entry? id with
  | none => rw [cancel_of_none he]
  | some e =>
    cases hs : e.run.status.isTerminal with
    | true => rw [cancel_of_terminal he hs]
    | false => rw [cancel_of_live he hs] at h; cases h

/-- What cancelling that says true leaves: the run as cancelled now, and its
token fired. -/
theorem entry?_cancel {s : Store} {id : String} {e : StoredRun} (h : s.entry? id = some e)
    (hlive : e.run.status.isTerminal = false) (now : Nat) :
    entry? (s.cancel id now).2 id = some ⟨e.run.finish .cancelled now, e.token⟩ := by
  rw [cancel_of_live h hlive]
  have hplace := find?_place ⟨e.run.finish .cancelled now, e.token⟩ s.entries
  rwa [Run.finish_id, entry?_id h] at hplace

theorem entry?_cancel_ne {s : Store} {id id' : String} (h : id ≠ id') (now : Nat) :
    entry? (s.cancel id now).2 id' = s.entry? id' := by
  cases he : s.entry? id with
  | none => rw [cancel_of_none he]
  | some e =>
    cases hs : e.run.status.isTerminal with
    | true => rw [cancel_of_terminal he hs]
    | false =>
      rw [cancel_of_live he hs]
      exact find?_place_ne (by rwa [Run.finish_id, entry?_id he]) s.entries

@[simp] theorem cancel_tokens (s : Store) (id : String) (now : Nat) :
    (s.cancel id now).2.tokens = s.tokens := by
  unfold cancel
  split
  · split <;> rfl
  · rfl

/-! ## Forgetting -/

theorem entry?_remove (s : Store) (id : String) : entry? (s.remove id).2 id = none := by
  unfold remove
  cases h : s.get? id with
  | none => simpa [get?] using h
  | some run =>
    unfold entry?
    dsimp only
    rw [List.find?_filter, List.find?_eq_none]
    intro e _
    simp

theorem mem_remove {s : Store} {id : String} {e : StoredRun} (h : e ∈ (s.remove id).2.entries) :
    e ∈ s.entries := by
  unfold remove at h
  cases hr : s.get? id with
  | none => simpa [hr] using h
  | some run =>
    simp only [hr, List.mem_filter] at h
    exact h.1

@[simp] theorem remove_tokens (s : Store) (id : String) : (s.remove id).2.tokens = s.tokens := by
  unfold remove
  split <;> rfl

@[simp] theorem remove_fired (s : Store) (id : String) : (s.remove id).2.fired = s.fired := by
  unfold remove
  split <;> rfl

theorem entry?_remove_ne {s : Store} {id id' : String} (h : id ≠ id') :
    entry? (s.remove id).2 id' = s.entry? id' := by
  unfold remove
  cases s.get? id with
  | none => rfl
  | some run =>
    unfold entry?
    dsimp only
    rw [List.find?_filter]
    congr 1
    funext e
    by_cases he : e.run.id = id'
    · simp [he, Ne.symm h]
    · simp [he]

end Store

end Automation
