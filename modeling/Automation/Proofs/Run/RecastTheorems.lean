/-
Automation.Proofs.Run.RecastTheorems — records of runs rewritten.

`World.recast f` rewrites the records of runs wherever they are found: in the
store, and among the results of runs in the background. Of the records that it
has, the store looks at ids and statuses, and it changes statuses, dates and
errors. So a rewriting that leaves ids alone, and that commutes with being
cancelled and with being handed in beside a stored record (`Run.Recasts`),
commutes with everything that is done to a world: the lemmas that end in
`_recast` say so, operation by operation. What is rewritten may hang on the id.
-/
import Automation.Engine.World
import Automation.Proofs.Run.StoreTheorems

namespace Automation

variable {f : String → Run → Run}

/-- The record in the store, rewritten. -/
def StoredRun.recast (f : String → Run → Run) (e : StoredRun) : StoredRun :=
  { e with run := f e.run.id e.run }

/-- The store with its records rewritten. -/
def Store.recast (f : String → Run → Run) (s : Store) : Store :=
  { s with entries := s.entries.map (.recast f) }

/-- The world with all records rewritten. -/
def World.recast (f : String → Run → Run) (w : World) : World :=
  { w with
    store := w.store.recast f
    background := w.background.map fun (id, run) => (id, run.map (f id)) }

/-- Rewriting, which hangs on the id, commutes with what the store does to a
record. -/
structure Run.Recasts (f : String → Run → Run) : Prop where
  id : ∀ i (r : Run), (f i r).id = r.id
  cancel? : ∀ i (r : Run) now, (f i r).cancel? now = (r.cancel? now).map (f i)
  merge : ∀ i (stored r : Run), Store.merge (f i stored) (f i r) = f i (Store.merge stored r)

/-! ## The store -/

namespace Store

variable (hf : Run.Recasts f) {id : String} {s : Store} {r : Run}

include hf

theorem place_recast (e : StoredRun) (entries : List StoredRun) :
    place (e.recast f) (entries.map (.recast f)) = (place e entries).map (.recast f) := by
  induction entries with
  | nil => rfl
  | cons g rest ih =>
    have hid : ∀ e : StoredRun, (e.recast f).run.id = e.run.id := fun e => hf.id _ e.run
    simp only [List.map_cons, place, hid, ih]
    split <;> rfl

theorem entry?_recast : Store.entry? (s.recast f) id = (s.entry? id).map (.recast f) := by
  have hid : (fun e : StoredRun => e.run.id == id) ∘ .recast f = fun e => e.run.id == id :=
    funext fun e => congrArg (· == id) (hf.id _ e.run)
  simp only [ entry?, recast, List.find?_map, hid]

theorem get?_recast : (s.recast f).get? id = (s.get? id).map (f id) := by
  unfold get?
  rw [entry?_recast hf]
  cases h : s.entry? id with
  | none => rfl
  | some e => simp [StoredRun.recast, entry?_id h]

theorem register_recast :
    (s.recast f).register (f r.id r) = ((s.register r).1, (s.register r).2.recast f) := by
  have hplace := place_recast hf ⟨r, s.tokens⟩ s.entries
  simp only [register, recast, ← hplace]
  rfl

theorem save_recast :
    (s.recast f).save (f r.id r) = (f r.id (s.save r).1, (s.save r).2.recast f) := by
  cases h : s.entry? r.id with
  | none =>
    have h' : Store.entry? (s.recast f) (f r.id r).id = none := by
      rw [hf.id, entry?_recast hf, h]
      rfl
    rw [save_of_none h, save_of_none h', register_recast hf]
  | some e =>
    have h' : Store.entry? (s.recast f) (f r.id r).id = some (e.recast f) := by
      rw [hf.id, entry?_recast hf, h]
      rfl
    have hmerge : merge (e.recast f).run (f r.id r) = f r.id (merge e.run r) := by
      rw [← hf.merge, ← entry?_id h]
      rfl
    have hplace := place_recast hf ⟨merge e.run r, e.token⟩ s.entries
    rw [save_of_entry h, save_of_entry h', hmerge]
    simp only [recast, ← hplace, StoredRun.recast, merge_id]

theorem cancel_recast (id : String) (now : Nat) :
    (s.recast f).cancel id now = ((s.cancel id now).1, (s.cancel id now).2.recast f) := by
  unfold cancel
  rw [entry?_recast hf]
  cases h : s.entry? id with
  | none => rfl
  | some e =>
    have hcancel : (e.recast f).run.cancel? now = (e.run.cancel? now).map (f e.run.id) :=
      hf.cancel? _ _ now
    simp only [Option.map_some, hcancel]
    cases hrun : e.run.cancel? now with
    | none => rfl
    | some run =>
      have hid : run.id = e.run.id := by
        have hcancelled := e.run.cancel_id now
        rwa [Run.cancel, hrun] at hcancelled
      have hplace := place_recast hf ⟨run, e.token⟩ s.entries
      simp only [Option.map_some, recast, ← hplace, StoredRun.recast, hid]

theorem remove_recast (id : String) :
    (s.recast f).remove id = ((s.remove id).1.map (f id), (s.remove id).2.recast f) := by
  unfold remove
  rw [get?_recast hf]
  cases h : s.get? id with
  | none => rfl
  | some run => simp [recast, StoredRun.recast, List.filter_map, Function.comp_def, hf.id]

end Store

/-! ## The world -/

namespace World

variable {id : String} {w : World} {r : Run}

theorem lookup_recast : (w.recast f).background.lookup id =
    (w.background.lookup id).map (Option.map (f id)) := by
  unfold recast
  dsimp only
  induction w.background with
  | nil => rfl
  | cons entry rest ih =>
    obtain ⟨id', run?⟩ := entry
    rw [List.map_cons, List.lookup_cons, List.lookup_cons, ih]
    cases h : id == id' with
    | false => rfl
    | true => rw [eq_of_beq h]; rfl

theorem signals_recast : (w.recast f).signals = w.signals := by
  have hended : ∀ id, (w.recast f).hasEnded id = w.hasEnded id := by
    intro id
    unfold hasEnded
    rw [lookup_recast]
    cases w.background.lookup id with
    | none => rfl
    | some run? => cases run? <;> rfl
  simp only [signals, funext hended]
  rfl

theorem isBehind_recast : (w.recast f).isBehind id = w.isBehind id := by
  simp [isBehind, recast, Function.comp_def]

theorem leaveRun_recast : (w.recast f).leaveRun id = (w.leaveRun id).recast f := by
  simp [leaveRun, recast]

theorem endRun_recast : (w.recast f).endRun id (f id r) = (w.endRun id r).recast f := by
  simp only [endRun, recast, List.map_map]
  congr 1
  refine List.map_congr_left fun entry _ => ?_
  by_cases h : entry.1 = id
  · simp [h]
  · simp [h]

theorem fetchRun_recast : (w.recast f).fetchRun id =
    ((w.fetchRun id).1.map (f id), (w.fetchRun id).2.recast f) := by
  unfold fetchRun
  rw [lookup_recast]
  refine Prod.ext ?_ ?_
  · cases w.background.lookup id <;> rfl
  · simp [recast, List.filter_map, Function.comp_def]

/-! ### Worlds that are the same when they are rewritten -/

section

variable {s t : World} (h : s.recast f = t.recast f)

include h

theorem now_of_recast : s.now = t.now :=
  (congrArg now h :)

theorem services_of_recast : s.services = t.services :=
  (congrArg services h :)

theorem signals_of_recast : s.signals = t.signals := by
  rw [← signals_recast (f := f) (w := s), ← signals_recast (f := f) (w := t), h]

theorem isFired_of_recast (token : Nat) : s.store.isFired token = t.store.isFired token :=
  congrArg (·.isFired token) (signals_of_recast h)

theorem isBehind_of_recast (id : String) : s.isBehind id = t.isBehind id := by
  rw [← isBehind_recast (f := f) (w := s), ← isBehind_recast (f := f) (w := t), h]

/-- Collaborators are called alike. -/
theorem recast_withServices (services : Services) :
    recast f { s with services } = recast f { t with services } :=
  (congrArg (fun w : World => { w with services }) h :)

/-- Two operations that come to the same when that is rewritten: their results and
what they leave are those of one operation on the world rewritten. -/
theorem step_of_recast {α β γ : Type} {g : World → α × World} {g' : World → β × World}
    {p : α → γ} {q : β → γ} (k : World → γ × World)
    (hg : ∀ w, k (w.recast f) = (p (g w).1, (g w).2.recast f))
    (hg' : ∀ w, k (w.recast f) = (q (g' w).1, (g' w).2.recast f)) :
    (g s).2.recast f = (g' t).2.recast f ∧ p (g s).1 = q (g' t).1 := by
  have heq := (hg s).symm.trans ((congrArg k h).trans (hg' t))
  exact ⟨congrArg Prod.snd heq, congrArg Prod.fst heq⟩

end

/-! ### Operations on runs -/

section

variable (hf : Run.Recasts f)

include hf

theorem addRun_recast :
    (w.recast f).addRun (f r.id r) = ((w.addRun r).1, (w.addRun r).2.recast f) := by
  have hregister := Store.register_recast hf (s := w.store) (r := r)
  simp only [addRun, recast, hregister]

theorem saveRun_recast :
    (w.recast f).saveRun (f r.id r) = (f r.id (w.saveRun r).1, (w.saveRun r).2.recast f) := by
  have hsave := Store.save_recast hf (s := w.store) (r := r)
  simp only [saveRun, recast, hsave]

theorem cancelRun_recast :
    (w.recast f).cancelRun id = ((w.cancelRun id).1, (w.cancelRun id).2.recast f) := by
  have hcancel := Store.cancel_recast hf (s := w.store) id w.now
  simp only [cancelRun, recast, hcancel]

theorem removeRun_recast :
    (w.recast f).removeRun id = ((w.removeRun id).1.map (f id), (w.removeRun id).2.recast f) := by
  have hremove := Store.remove_recast hf (s := w.store) id
  simp only [removeRun, recast, hremove]

variable {s t : World} (h : s.recast f = t.recast f) {r' : Run} (hr : f r.id r = f r'.id r')

include h hr

/-- Two records that are the same when they are rewritten are entered alike. -/
theorem addRun_of_recast : (s.addRun r).2.recast f = (t.addRun r').2.recast f ∧
    (s.addRun r).1 = (t.addRun r').1 := by
  have hadd := addRun_recast hf (w := s) (r := r)
  rw [h, hr, addRun_recast hf] at hadd
  obtain ⟨htoken, hworld⟩ := Prod.mk.inj hadd
  exact ⟨hworld.symm, htoken.symm⟩

/-- And they are handed in alike. -/
theorem saveRun_of_recast : (s.saveRun r).2.recast f = (t.saveRun r').2.recast f ∧
    f r.id (s.saveRun r).1 = f r'.id (t.saveRun r').1 := by
  have hsave := saveRun_recast hf (w := s) (r := r)
  rw [h, hr, saveRun_recast hf] at hsave
  obtain ⟨hrun, hworld⟩ := Prod.mk.inj hsave
  exact ⟨hworld.symm, hrun.symm⟩

end

end World

end Automation
