/-
Automation.Proofs.Engine.OriginTheorems — which workflow a record comes from.

`Run.StartedFrom e w r`: the record `r` is the record of a run of `w` as it
was set off by the engine, after some steps of its driver, perhaps with a
cancellation among them. Such a record bears the id and the version of the
workflow, its nodes are nodes of the workflow, and its error does not say
that the workflow was refused: none of the steps writes that.

A store in which every record comes from an admissible workflow keeps that
when a record of the like is entered or handed in, and when runs are
cancelled (`Store.Admits`).
-/
import Automation.Proofs.Engine.MirrorTheorems
import Automation.Proofs.Engine.ShapeTheorems
import Automation.Proofs.Workflow.RegistryTheorems

namespace Automation

open Automation.Json (Value)

/-- The record is that of a run of the workflow, from its start on. -/
inductive Run.StartedFrom (e : Engine) : Workflow → Run → Prop where
  | start (w : Workflow) (id : String) (payload : Value) (options : RunOptions) (now : Nat) :
    StartedFrom e w (.start w id payload
      (.seed w payload options.overrides e.config.environment (.reading now)) options.source now)
  | advances {w : Workflow} {r r' : Run} :
    StartedFrom e w r → r.Advances w r' → StartedFrom e w r'
  | cancelled {w : Workflow} {r r' : Run} {now : Nat} :
    StartedFrom e w r → r.cancel? now = some r' → StartedFrom e w r'
  /-- What is stored of the run counts. -/
  | merged {w w' : Workflow} {r stored : Run} : StartedFrom e w r → StartedFrom e w' stored →
    stored.id = r.id → StartedFrom e w (Store.merge stored r)

/-- The record does not say that its workflow was refused. -/
def Run.NotRefused (r : Run) : Prop :=
  ∀ rest, r.error ≠ some ("Workflow validation failed" ++ rest)

/-- What a record says of the workflow that it comes from. -/
structure Run.IsOf (r : Run) (w : Workflow) : Prop where
  workflowId : r.workflowId = w.id
  workflowVersion : r.workflowVersion = w.version
  nodes : ∀ record ∈ r.nodes, ∃ node ∈ w.nodes, record.nodeId = node.id
  notRefused : r.NotRefused

namespace Run

variable {e : Engine} {w : Workflow} {r r' : Run}

theorem NotRefused.of_error {opening rest : String} (n : Nat)
    (hr : r.error = some (opening ++ rest)) (hlength : n ≤ opening.toList.length)
    (hn : n ≤ "Workflow validation failed".toList.length)
    (hne : opening.toList.take n ≠ "Workflow validation failed".toList.take n) :
    r.NotRefused := by
  intro rest' h
  exact String.append_ne n rest rest' hlength hn hne (Option.some.inj (hr.symm.trans h))

theorem IsOf.congr (h : r.IsOf w) (hid : r'.workflowId = r.workflowId)
    (hversion : r'.workflowVersion = r.workflowVersion) (hnodes : r'.nodes = r.nodes)
    (hrefused : r'.NotRefused) : r'.IsOf w :=
  ⟨hid.trans h.workflowId, hversion.trans h.workflowVersion, hnodes ▸ h.nodes, hrefused⟩

theorem IsOf.cancel? {now : Nat} (h : r.IsOf w) (hr : r.cancel? now = some r') : r'.IsOf w := by
  unfold Run.cancel? at hr
  split at hr
  · cases hr
  · cases hr
    exact h.congr rfl rfl rfl h.notRefused

theorem IsOf.advances (h : r.IsOf w) (hr : r.Advances w r') : r'.IsOf w := by
  cases hr with
  | enter hnode now =>
    refine ⟨h.workflowId, h.workflowVersion, ?_, h.notRefused⟩
    intro record hrecord
    rcases List.mem_append.mp hrecord with hrecord | hrecord
    · exact h.nodes record hrecord
    · exact ⟨_, hnode, by rw [List.mem_singleton.mp hrecord]; rfl⟩
  | leave hnode vars began now number log verdict =>
    refine ⟨h.workflowId, h.workflowVersion, ?_, h.notRefused⟩
    intro record hrecord
    rcases List.mem_append.mp hrecord with hrecord | hrecord
    · exact h.nodes record (List.dropLast_subset _ hrecord)
    · exact ⟨_, hnode, by rw [List.mem_singleton.mp hrecord, NodeRun.close_nodeId]; rfl⟩
  | lose id => exact h.congr rfl rfl rfl h.notRefused
  | stopped node error now =>
    have herror : (r.fail ("Node '" ++ node ++ "' failed: " ++ error) now).error =
        some ("Node '" ++ (node ++ ("' failed: " ++ error))) := by
      rw [← String.append_assoc, ← String.append_assoc]
      rfl
    exact h.congr rfl rfl rfl (.of_error 1 herror (by decide) (by decide) (by decide))
  | late now =>
    have herror : (r.fail w.settings.timeoutMessage now).error =
        some ("Workflow timed out after " ++ (toString (w.settings.timeout.getD 0) ++ " ms")) := by
      rw [← String.append_assoc]
      rfl
    exact h.congr rfl rfl rfl (.of_error 10 herror (by decide) (by decide) (by decide))
  | cancelled now =>
    unfold Run.cancel
    cases hc : r.cancel? now with
    | none => exact h
    | some r' => exact h.cancel? hc
  | completed now => exact h.congr rfl rfl rfl h.notRefused

theorem IsOf.merge {stored : Run} (h : r.IsOf w) (hstored : stored.NotRefused) :
    (Store.merge stored r).IsOf w := by
  unfold Store.merge
  split
  · refine h.congr rfl rfl rfl fun rest => ?_
    dsimp only
    cases herror : stored.error with
    | none => simpa using h.notRefused rest
    | some error => simpa [herror] using hstored rest
  · exact h

/-- **A record that comes from a workflow says so**, and does not say that the
workflow was refused. -/
theorem StartedFrom.isOf (h : r.StartedFrom e w) : r.IsOf w := by
  induction h with
  | start w id payload options now => exact ⟨rfl, rfl, by simp [Run.start], fun _ h => by cases h⟩
  | advances _ hr ih => exact ih.advances hr
  | cancelled _ hr ih => exact ih.cancel? hr
  | merged _ _ _ ih ih' => exact ih.merge ih'.notRefused

end Run

/-! ## Stores -/

/-- Every record comes from an admissible workflow. -/
def Store.Admits (e : Engine) (s : Store) : Prop :=
  ∀ entry ∈ s.entries, ∃ w : Workflow, w.Admissible ∧ entry.run.StartedFrom e w

namespace Store

namespace Admits

variable {e : Engine} {s : Store} {w : Workflow} {r : Run}

theorem place (h : s.Admits e) {entry : StoredRun} (hw : w.Admissible)
    (hr : entry.run.StartedFrom e w) {tokens : Nat} {fired : List Nat} :
    Admits e { entries := Store.place entry s.entries, tokens, fired } := by
  intro f hf
  rcases mem_place hf with rfl | hf
  · exact ⟨w, hw, hr⟩
  · exact h f hf

theorem register (h : s.Admits e) (hw : w.Admissible) (hr : r.StartedFrom e w) :
    (s.register r).2.Admits e :=
  h.place hw hr

/-- What is handed back comes from the same workflow. -/
theorem save (h : s.Admits e) (hw : w.Admissible) (hr : r.StartedFrom e w) :
    (s.save r).2.Admits e ∧ (s.save r).1.StartedFrom e w := by
  cases hentry : s.entry? r.id with
  | none =>
    rw [save_of_none hentry]
    exact ⟨h.register hw hr, hr⟩
  | some entry =>
    obtain ⟨w', -, hstored⟩ := h entry (List.mem_of_find?_eq_some hentry)
    have hmerged := hr.merged hstored (entry?_id hentry)
    rw [save_of_entry hentry]
    exact ⟨h.place hw hmerged, hmerged⟩

theorem cancel (h : s.Admits e) (id : String) (now : Nat) : (s.cancel id now).2.Admits e := by
  unfold Store.cancel
  split
  · next entry hentry =>
    obtain ⟨w', hw', hstored⟩ := h entry (List.mem_of_find?_eq_some hentry)
    split
    · next hcancelled => exact h.place hw' (hstored.cancelled hcancelled)
    · exact h
  · exact h

end Admits

end Store

end Automation
