/-
Automation.Proofs.Run.LoggedTheorems — what some settings keep of the logs.

`NodeRun.logged l` takes out of the log of a node what `l` does not keep, and
`World.logged i l` does so wherever records of the run `i` are found: in the
store, and among the results of runs in the background. All other records,
and everything else, stay as they are.

Nothing that is done with records looks at logs (`Run.loggedIf_recasts`). So
each operation does the same to a world of which some log entries were taken
out, as long as they are taken out of the record that it is handed, too; the
lemmas that end in `_logged` say so, operation by operation.
-/
import Automation.Proofs.Run.RecastTheorems
import Automation.Proofs.Run.ViewTheorems

namespace Automation

/-! ## What is kept -/

/-- Every entry is kept. -/
def Logging.full : Logging := { enabled := true, level := .debug }

/-- No entry is kept. -/
def Logging.off : Logging := { enabled := false }

/-- Whether entries of a level are kept. -/
def Logging.keeps (l : Logging) (level : LogLevel) : Bool :=
  l.enabled && l.level.rank ≤ level.rank

/-- The record of a node with the log entries that are kept, in their order. -/
def NodeRun.logged (l : Logging) (r : NodeRun) : NodeRun :=
  { r with logs := r.logs.filter fun entry => l.keeps entry.level }

namespace Run

/-- The record of a run with the log entries that are kept. -/
def logged (l : Logging) (r : Run) : Run :=
  { r with nodes := r.nodes.map (.logged l) }

/-- The record of a run `id`, with the log entries that are kept if it is `i`. -/
def loggedIf (i : String) (l : Logging) (id : String) (r : Run) : Run :=
  if id = i then r.logged l else r

end Run

/-- A stored record of `i` with the log entries that are kept. -/
def StoredRun.logged (i : String) (l : Logging) (e : StoredRun) : StoredRun :=
  { e with run := e.run.loggedIf i l e.run.id }

/-- The store with the log entries that are kept of `i`. -/
def Store.logged (i : String) (l : Logging) (s : Store) : Store :=
  { s with entries := s.entries.map (.logged i l) }

/-- The world with the log entries that are kept of `i`. -/
def World.logged (i : String) (l : Logging) (w : World) : World :=
  { w with
    store := w.store.logged i l
    background := w.background.map fun (id, run) => (id, run.map (.loggedIf i l id)) }

/-! ## Records -/

/-- All of a record is seen but for the log entries that are not kept. -/
def Logging.view (l : Logging) : View := { keeps := l.keeps }

@[simp] theorem Logging.view_later (l : Logging) : l.view.later = 0 := rfl

theorem Logging.run_view (l : Logging) : l.view.run = .logged l := by
  have hentries : ∀ log : List LogEntry, l.view.entries log =
      log.filter fun entry => l.keeps entry.level := by
    simp [View.entries, view]
  have hnode : ∀ record : NodeRun, l.view.node record = record.logged l := by
    simp [View.node, NodeRun.logged, hentries]
  funext r
  have hnodes : r.nodes.map l.view.node = r.nodes.map (.logged l) :=
    List.map_congr_left fun record _ => hnode record
  simp only [View.run, View.context, Run.logged, hnodes]
  simp [view]

/-- A log that is kept is that of full logging as seen. -/
theorem Logging.seenBy (l : Logging) :
    (Logger.ofSettings l).SeenBy l.view (Logger.ofSettings .full) := by
  refine ⟨fun level => ?_, rfl⟩
  cases h : l.enabled <;>
    simp [Logger.keeps, Logger.ofSettings, Logging.full, view, Logging.keeps, h, LogLevel.rank]

namespace Run

variable {i id : String} {l : Logging} {r : Run}

@[simp] theorem loggedIf_self : r.loggedIf i l i = r.logged l := if_pos rfl

theorem loggedIf_ne (h : id ≠ i) : r.loggedIf i l id = r := if_neg h

@[simp] theorem loggedIf_id : (r.loggedIf i l id).id = r.id := by
  unfold loggedIf
  split <;> rfl

/-- A record is taken as it is, or as it is seen. -/
theorem loggedIf_eq (i : String) (l : Logging) (id : String) :
    Run.loggedIf i l id = (fun r => r) ∨ Run.loggedIf i l id = l.view.run := by
  rw [l.run_view]
  by_cases h : id = i
  · exact Or.inr (funext fun r => if_pos h)
  · exact Or.inl (funext fun r => if_neg h)

/-- Without records of nodes there are no log entries. -/
theorem loggedIf_of_nodes (h : r.nodes = []) : r.loggedIf i l id = r := by
  obtain ⟨⟩ := r
  obtain rfl := h
  exact ite_self _

/-- What was logged otherwise is the same without its logs. -/
theorem logged_off (r : Run) : (r.logged l).logged .off = r.logged .off := by
  simp [logged, NodeRun.logged, Logging.keeps, Logging.off, Function.comp_def]

/-- Log entries do not matter to what the store does with a record. -/
theorem loggedIf_recasts (i : String) (l : Logging) : Run.Recasts (Run.loggedIf i l) where
  id _ _ := loggedIf_id
  cancel? id r now := by
    rcases loggedIf_eq i l id with h | h
    · rw [h, Option.map_id']
    · rw [h]
      exact View.run_cancel? l.view r now
  merge id stored r := by
    rcases loggedIf_eq i l id with h | h
    · rw [h]
    · rw [h]
      exact (View.run_merge l.view r stored).symm

end Run

/-! ## The world -/

theorem Store.get?_logged {i id : String} {l : Logging} {s : Store} :
    (s.logged i l).get? id = (s.get? id).map (.loggedIf i l id) :=
  get?_recast (Run.loggedIf_recasts i l)

namespace World

variable {i id : String} {l : Logging} {w : World} {r : Run}

theorem signals_logged : (w.logged i l).signals = w.signals :=
  signals_recast

theorem isBehind_logged : (w.logged i l).isBehind id = w.isBehind id :=
  isBehind_recast

theorem addRun_logged : (w.logged i l).addRun (r.loggedIf i l r.id) =
    ((w.addRun r).1, (w.addRun r).2.logged i l) :=
  addRun_recast (Run.loggedIf_recasts i l)

theorem saveRun_logged : (w.logged i l).saveRun (r.loggedIf i l r.id) =
    ((w.saveRun r).1.loggedIf i l r.id, (w.saveRun r).2.logged i l) :=
  saveRun_recast (Run.loggedIf_recasts i l)

theorem cancelRun_logged : (w.logged i l).cancelRun id =
    ((w.cancelRun id).1, (w.cancelRun id).2.logged i l) :=
  cancelRun_recast (Run.loggedIf_recasts i l)

theorem removeRun_logged : (w.logged i l).removeRun id =
    ((w.removeRun id).1.map (.loggedIf i l id), (w.removeRun id).2.logged i l) :=
  removeRun_recast (Run.loggedIf_recasts i l)

theorem leaveRun_logged : (w.logged i l).leaveRun id = (w.leaveRun id).logged i l :=
  leaveRun_recast

theorem endRun_logged : (w.logged i l).endRun id (r.loggedIf i l id) =
    (w.endRun id r).logged i l :=
  endRun_recast

theorem fetchRun_logged : (w.logged i l).fetchRun id =
    ((w.fetchRun id).1.map (.loggedIf i l id), (w.fetchRun id).2.logged i l) :=
  fetchRun_recast

/-- What was logged otherwise is the same without its logs. -/
theorem logged_off : (w.logged i l).logged i .off = w.logged i .off := by
  have hrun : ∀ (id : String) (r : Run),
      (r.loggedIf i l id).loggedIf i .off id = r.loggedIf i .off id := by
    intro id r
    unfold Run.loggedIf
    split
    · exact Run.logged_off r
    · rfl
  have hentry : ∀ e : StoredRun, (e.logged i l).logged i .off = e.logged i .off := by
    intro e
    simp only [StoredRun.logged, Run.loggedIf_id, hrun]
  have hfates : ∀ (id : String) (run? : Option Run),
      (run?.map (Run.loggedIf i l id)).map (Run.loggedIf i .off id) =
        run?.map (Run.loggedIf i .off id) := by
    intro id run?
    cases run? with
    | none => rfl
    | some r => exact congrArg some (hrun id r)
  simp [logged, Store.logged, Function.comp_def, hentry, hfates]

/-- Where a run is not known, there are no log entries of it. -/
theorem logged_of_unknown (hentries : ∀ e ∈ w.store.entries, e.run.id ≠ i)
    (hbehind : w.isBehind i = false) : w.logged i l = w := by
  have hstore : w.store.entries.map (.logged i l) = w.store.entries := by
    refine (List.map_congr_left fun e he => ?_).trans (List.map_id w.store.entries)
    exact congrArg (fun run => { e with run }) (Run.loggedIf_ne (hentries e he))
  have hbackground : (w.background.map fun (id, run) => (id, run.map (.loggedIf i l id))) =
      w.background := by
    refine (List.map_congr_left fun entry he => ?_).trans (List.map_id w.background)
    have hne : entry.1 ≠ i := by simpa using List.any_eq_false.mp hbehind entry he
    obtain ⟨id, _ | run⟩ := entry
    · rfl
    · exact congrArg (fun run => (id, some run)) (Run.loggedIf_ne hne)
  unfold logged Store.logged
  rw [hstore, hbackground]

end World

end Automation
