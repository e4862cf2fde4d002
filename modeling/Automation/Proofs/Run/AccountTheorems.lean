/-
Automation.Proofs.Run.AccountTheorems — the record of a run as an account of
deeds.

`Accounts` sets the records of nodes and the references to tasks beside a
list of deeds. The completed nodes that are there for deeds are those deeds,
one by one and in order: each shows the type and the value of its deed. The
references are what these deeds leave in the context, each under the id of
its node. A record more adds a deed or none (`Accounts.snoc`,
`accounts_snoc_iff`).

So the last reference to a task shows what the last deed has made of it
(`Accounts.last_reference`).
-/
import Automation.Proofs.Node.ExecutorTheorems
import Automation.Proofs.Run.RecordTheorems
import Mathlib.Data.List.Forall2

namespace Automation

open Automation.Json (Value)
open Automation.Time (Face)

/-- Whether the record is that of a node which has done a deed. -/
def NodeRun.isDeed (r : NodeRun) : Bool :=
  r.status == .completed && r.type.acts

/-- The record of a node that has done this deed. -/
structure NodeRun.Tells (face : Face) (r : NodeRun) (deed : Deed) : Prop where
  type : r.type = deed.type
  output : r.output = some (deed.value face)

/-- What the records of the nodes leave of their deeds in the context. -/
def NodeRun.references (face : Face) (records : List NodeRun) (deeds : List Deed) :
    List TaskReference :=
  (List.zipWith (fun r deed => deed.references face r.nodeId) records deeds).flatten

/-- Records of nodes and references to tasks account for deeds. -/
structure Accounts (face : Face) (records : List NodeRun) (references : List TaskReference)
    (deeds : List Deed) : Prop where
  told : List.Forall₂ (NodeRun.Tells face) (records.filter NodeRun.isDeed) deeds
  references : references = NodeRun.references face (records.filter NodeRun.isDeed) deeds

/-- A run accounts for deeds. -/
def Run.Accounts (face : Face) (run : Run) (deeds : List Deed) : Prop :=
  Automation.Accounts face run.nodes run.context.tasks deeds

section

variable {face : Face} {records : List NodeRun} {references : List TaskReference}
  {deeds : List Deed} {r : NodeRun} {deed : Deed}

theorem accounts_nil : Accounts face [] [] [] :=
  ⟨.nil, rfl⟩

/-- A record that is not of a deed. -/
theorem accounts_snoc_iff (hr : r.isDeed = false) :
    Accounts face (records ++ [r]) references deeds ↔ Accounts face records references deeds := by
  have hfilter : (records ++ [r]).filter NodeRun.isDeed = records.filter NodeRun.isDeed := by
    rw [List.filter_append, List.filter_cons_of_neg (by rw [hr]; exact Bool.false_ne_true),
      List.filter_nil, List.append_nil]
  constructor
  · intro h
    exact ⟨hfilter ▸ h.told, hfilter ▸ h.references⟩
  · intro h
    exact ⟨hfilter.symm ▸ h.told, hfilter.symm ▸ h.references⟩

/-- A record of a deed. -/
theorem Accounts.snoc (h : Accounts face records references deeds) (hr : r.isDeed = true)
    (htells : r.Tells face deed) :
    Accounts face (records ++ [r]) (references ++ deed.references face r.nodeId)
      (deeds ++ [deed]) := by
  have hfilter : (records ++ [r]).filter NodeRun.isDeed = records.filter NodeRun.isDeed ++ [r] := by
    rw [List.filter_append, List.filter_cons_of_pos hr, List.filter_nil]
  constructor
  · rw [hfilter]
    exact List.rel_append h.told (.cons htells .nil)
  · rw [hfilter, NodeRun.references, List.zipWith_append h.told.length_eq, List.flatten_append,
      h.references]
    simp [NodeRun.references]

theorem Run.Accounts.congr {run run' : Run} (h : run.Accounts face deeds)
    (hnodes : run'.nodes = run.nodes) (htasks : run'.context.tasks = run.context.tasks) :
    run'.Accounts face deeds := by
  unfold Run.Accounts
  rwa [hnodes, htasks]

theorem Run.Accounts.echoes {run run' : Run} (h : run.Accounts face deeds)
    (he : run'.Echoes run) : run'.Accounts face deeds :=
  h.congr he.nodes (by rw [he.context])

/-! ## Tasks -/

/-- What a reference says of its task. -/
def TaskReference.about (reference : TaskReference) : String × String × Value :=
  (reference.taskId, reference.status, reference.snapshot)

/-- What there is to be said of a task. -/
def TaskRecord.about (face : Face) (task : TaskRecord) : String × String × Value :=
  (task.id, task.status, task.toJson face)

/-- The references say of the tasks what the deeds have made of them. -/
theorem Accounts.about (h : Accounts face records references deeds) :
    references.map TaskReference.about =
      (deeds.filterMap Deed.record?).map (TaskRecord.about face) := by
  obtain ⟨htold, rfl⟩ := h
  generalize records.filter NodeRun.isDeed = told at htold
  induction htold with
  | nil => rfl
  | @cons r deed told deeds _ _ ih =>
    have hhead : (deed.references face r.nodeId).map TaskReference.about =
        deed.record?.toList.map (TaskRecord.about face) := by
      cases deed <;> rfl
    have htail : NodeRun.references face (r :: told) (deed :: deeds) =
        deed.references face r.nodeId ++ NodeRun.references face told deeds := rfl
    rw [htail, List.map_append, ih, hhead, ← List.map_append]
    cases deed <;> rfl

/-- The last that is done to a task. -/
def Deed.last? (deeds : List Deed) (taskId : String) : Option TaskRecord :=
  ((deeds.filterMap Deed.record?).filter (·.id == taskId)).getLast?

theorem Deed.last?_snoc (deeds : List Deed) (deed? : Option Deed) (taskId : String) :
    last? (deeds ++ deed?.toList) taskId =
      ((deed?.bind Deed.record?).filter (·.id == taskId)).or (last? deeds taskId) := by
  unfold last?
  rw [List.filterMap_append, List.filter_append, List.getLast?_append]
  congr 1
  rcases deed? with _ | deed
  · rfl
  · cases deed with
    | sent notification receipt => rfl
    | task action record =>
      cases hid : record.id == taskId <;> simp [Deed.record?, Option.filter, hid]

/-- The last reference to a task. -/
def Context.lastReference? (context : Context) (taskId : String) : Option TaskReference :=
  (context.tasks.filter (·.taskId == taskId)).getLast?

/-- **The last reference to a task** says what the last deed has made of it. -/
theorem Run.Accounts.last_reference {run : Run} (h : run.Accounts face deeds) (taskId : String) :
    (run.context.lastReference? taskId).map TaskReference.about =
      (Deed.last? deeds taskId).map (TaskRecord.about face) := by
  let isAbout : String × String × Value → Bool := fun said => said.1 == taskId
  calc (run.context.lastReference? taskId).map TaskReference.about
    _ = ((run.context.tasks.map TaskReference.about).filter isAbout).getLast? := by
      rw [List.filter_map, List.getLast?_map]
      rfl
    _ = (((deeds.filterMap Deed.record?).map (TaskRecord.about face)).filter isAbout).getLast? := by
      rw [Automation.Accounts.about h]
    _ = (Deed.last? deeds taskId).map (TaskRecord.about face) := by
      rw [List.filter_map, List.getLast?_map]
      rfl

end

end Automation
