/-
Automation.Proofs.Workflow.RegistryTheorems — what the registry holds.

A registry is sound if it holds valid workflows only, each under an id that
is not blank, and these in the strict order of their ids; so every workflow
is found under its own id (`Sound.get?`). Whatever is taken in or out, the
registry stays sound (`Sound.put`, `Sound.drop`), as long as what is taken
in is valid and has an id.

The date of creation belongs to the id: a workflow that takes the place of
another gets the date of that one, whatever it says itself
(`Dates.put`).
-/
import Automation.Workflow.Registry
import Mathlib.Data.String.Basic

namespace Automation

open Automation.Time (Timestamp)

/-- A workflow that may be registered: it is valid, and has an id. -/
structure Workflow.Admissible (w : Workflow) : Prop where
  isValid : w.isValid = true
  id : Text.isAllBlank w.id = false

namespace Registry

/-- The workflows are admissible, and stand in the strict order of their ids. -/
structure Sound (r : Registry) : Prop where
  admissible : ∀ w ∈ r.workflows, w.Admissible
  ordered : r.workflows.Pairwise (·.id < ·.id)

/-! ## Places -/

theorem mem_place {w v : Workflow} : ∀ {workflows : List Workflow}, v ∈ place w workflows →
    v = w ∨ v ∈ workflows
  | [], h => by simpa [place] using h
  | u :: rest, h => by
    unfold place at h
    split at h
    · simpa using h
    · split at h
      · simp only [List.mem_cons] at h ⊢
        exact h.imp_right Or.inr
      · rcases List.mem_cons.mp h with rfl | h
        · exact Or.inr List.mem_cons_self
        · exact (mem_place h).imp_right (List.mem_cons_of_mem _)

theorem ordered_place (w : Workflow) : ∀ {workflows : List Workflow},
    workflows.Pairwise (·.id < ·.id) → (place w workflows).Pairwise (·.id < ·.id)
  | [], _ => by simp [place]
  | v :: rest, h => by
    obtain ⟨hv, hrest⟩ := List.pairwise_cons.mp h
    unfold place
    split
    · next hlt =>
      refine List.pairwise_cons.mpr ⟨?_, h⟩
      intro u hu
      rcases List.mem_cons.mp hu with rfl | hu
      · exact hlt
      · exact lt_trans hlt (hv u hu)
    · next hlt =>
      split
      · next heq => exact List.pairwise_cons.mpr ⟨fun u hu => heq ▸ hv u hu, hrest⟩
      · next hne =>
        have hgt : v.id < w.id := lt_of_le_of_ne (not_lt.mp hlt) (Ne.symm hne)
        refine List.pairwise_cons.mpr ⟨fun u hu => ?_, ordered_place w hrest⟩
        rcases mem_place hu with rfl | hu
        · exact hgt
        · exact hv u hu

theorem find?_place (w : Workflow) : ∀ workflows : List Workflow,
    (place w workflows).find? (fun v => v.id == w.id) = some w
  | [] => by simp [place]
  | v :: rest => by
    unfold place
    split
    · simp
    · split
      · simp
      · next hne => simpa [Ne.symm hne] using find?_place w rest

theorem find?_place_ne {w : Workflow} {id : String} (h : w.id ≠ id) :
    ∀ workflows : List Workflow, (place w workflows).find? (fun v => v.id == id) =
      workflows.find? (fun v => v.id == id)
  | [] => by simp [place, h]
  | v :: rest => by
    unfold place
    split
    · simp [List.find?_cons, h]
    · split
      · next heq => simp [h, ← heq]
      · simp only [List.find?_cons, find?_place_ne h rest]

variable {r : Registry} {w : Workflow} {now : Timestamp}

/-! ## Finding -/

theorem get?_mem {id : String} (h : r.get? id = some w) : w ∈ r.workflows ∧ w.id = id :=
  ⟨List.mem_of_find?_eq_some h, by simpa using List.find?_some h⟩

/-- Every workflow is found under its own id. -/
theorem Sound.get? (h : r.Sound) (hw : w ∈ r.workflows) : r.get? w.id = some w := by
  obtain ⟨before, after, hsplit⟩ := List.append_of_mem hw
  have hordered := h.ordered
  rw [hsplit, List.pairwise_append] at hordered
  have hbefore : before.find? (fun v => v.id == w.id) = none := by
    rw [List.find?_eq_none]
    intro v hv
    simpa using (hordered.2.2 v hv w List.mem_cons_self).ne
  unfold Registry.get?
  rw [hsplit, List.find?_append, hbefore]
  simp

/-! ## Taking in -/

/-- The workflow as it is put under its id. -/
def stamped (r : Registry) (now : Timestamp) (w : Workflow) : Workflow :=
  match r.get? w.id with
  | none => w
  | some old => { w with createdAt := old.createdAt, updatedAt := now }

@[simp] theorem stamped_id : (r.stamped now w).id = w.id := by
  unfold stamped
  split <;> rfl

theorem stamped_admissible (h : w.Admissible) : (r.stamped now w).Admissible := by
  unfold stamped
  split
  · exact h
  · exact ⟨h.isValid, h.id⟩

theorem put_eq : r.put now w = ⟨place (r.stamped now w) r.workflows⟩ := by
  unfold put stamped
  cases r.get? w.id <;> rfl

theorem Sound.put (h : r.Sound) (hw : w.Admissible) : (r.put now w).Sound where
  admissible v hv := by
    rw [put_eq] at hv
    rcases mem_place hv with rfl | hv
    · exact stamped_admissible hw
    · exact h.admissible v hv
  ordered := by
    rw [put_eq]
    exact ordered_place _ h.ordered

theorem get?_put : (r.put now w).get? w.id = some (r.stamped now w) := by
  rw [put_eq]
  have hfound := find?_place (r.stamped now w) r.workflows
  rwa [stamped_id] at hfound

theorem get?_put_ne {id : String} (h : w.id ≠ id) : (r.put now w).get? id = r.get? id := by
  rw [put_eq]
  exact find?_place_ne (by rwa [stamped_id]) r.workflows

/-- The id is in use, and its first workflow was created then. -/
def Dates (r : Registry) (id : String) (created : Timestamp) : Prop :=
  ∃ w, r.get? id = some w ∧ w.createdAt = created

/-- Whatever is taken in, the dates of creation stay. -/
theorem Dates.put {id : String} {created : Timestamp} (h : r.Dates id created) :
    (r.put now w).Dates id created := by
  obtain ⟨old, hold, hcreated⟩ := h
  by_cases hid : w.id = id
  · subst hid
    refine ⟨_, get?_put, ?_⟩
    simp only [stamped, hold]
    exact hcreated
  · exact ⟨old, (get?_put_ne hid).trans hold, hcreated⟩

/-! ## Taking out -/

theorem Sound.drop (h : r.Sound) (id : String) : (r.drop id).Sound where
  admissible v hv := h.admissible v (List.mem_filter.mp hv).1
  ordered := h.ordered.filter _

theorem get?_drop (r : Registry) (id : String) : (r.drop id).get? id = none := by
  unfold drop Registry.get?
  rw [List.find?_eq_none]
  intro v hv
  have hne : v.id ≠ id := by simpa using (List.mem_filter.mp hv).2
  simpa using hne

theorem get?_drop_ne {id id' : String} (h : id ≠ id') : (r.drop id).get? id' = r.get? id' := by
  unfold drop Registry.get?
  rw [List.find?_filter]
  congr 1
  funext v
  by_cases hv : v.id = id'
  · simp [hv, Ne.symm h]
  · simp [hv]

theorem Dates.drop_ne {id id' : String} {created : Timestamp} (h : r.Dates id' created)
    (hne : id ≠ id') : (r.drop id).Dates id' created := by
  obtain ⟨w, hw, hcreated⟩ := h
  exact ⟨w, (get?_drop_ne hne).trans hw, hcreated⟩

/-! ## Refusals -/

/-- Registering takes in what is valid. -/
theorem register_eq_ok {report : Report} {r' : Registry}
    (h : r.register now w = .ok (report, r')) : w.isValid = true ∧ r' = r.put now w := by
  unfold register at h
  split at h
  · next hvalid =>
    obtain ⟨-, rfl⟩ := Prod.mk.inj (Except.ok.inj h)
    exact ⟨hvalid, rfl⟩
  · cases h

/-- Creating takes in what is valid, unless the id is in use. -/
theorem create_eq_ok {report : Option Report} {r' : Registry}
    (h : r.create now w = .ok (report, r')) :
    w.isValid = true ∧ (report = none ∧ r' = r ∨
      r.get? w.id = none ∧ report = some w.validate ∧ r' = r.put now w) := by
  unfold create at h
  split at h
  · next hvalid =>
    refine ⟨hvalid, ?_⟩
    split at h
    · obtain ⟨rfl, rfl⟩ := Prod.mk.inj (Except.ok.inj h)
      exact Or.inl ⟨rfl, rfl⟩
    · next hfree =>
      obtain ⟨rfl, rfl⟩ := Prod.mk.inj (Except.ok.inj h)
      exact Or.inr ⟨by simpa using hfree, rfl, rfl⟩
  · cases h

end Registry

end Automation
