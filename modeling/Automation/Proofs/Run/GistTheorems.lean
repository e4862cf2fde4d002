/-
Automation.Proofs.Run.GistTheorems — what two runs have in common that differ in
words.

Two nodes of which the one does what the other does may have different data,
and fail for different reasons. Then the records of their runs have other data
of nodes, other texts of errors and other messages in their logs. The gist of a
record is all the rest: which nodes were started, in which order and when, how
often they were attempted, how they ended, their outputs, the variables that
they found and the context that they left, and of the log entries their times
and levels. To the store the words do not matter (`Run.gist_recasts`).

Two records of one gist stay so when both go on in the same way, up to words:
when nodes are started that have the id and the type in common, and when they
are closed with verdicts that are alike (`Verdict.Alike`).
-/
import Automation.Proofs.Engine.AttemptTheorems
import Automation.Proofs.Json.OutlineTheorems
import Automation.Proofs.Run.RecastTheorems

namespace Automation

open Automation.Json (Value)

/-! ## The gist -/

/-- A log entry without its words. -/
def LogEntry.gist (e : LogEntry) : LogEntry :=
  { e with message := "" }

/-- The record of a node without the data of the node, and without words. -/
def NodeRun.gist (r : NodeRun) : NodeRun :=
  { r with
    input := match r.input with
      | .object fields => .object (Json.Fields.erase "data" fields)
      | input => input
    error := r.error.map fun _ => ""
    logs := r.logs.map .gist }

/-- The record of a run without the data of its nodes, and without words. -/
def Run.gist (r : Run) : Run :=
  { r with
    nodes := r.nodes.map .gist
    error := r.error.map fun _ => "" }

/-- The world with the gist of all records. -/
def World.gist : World → World :=
  World.recast fun _ => Run.gist

/-! ## Records of runs -/

namespace Run

/-- Words do not matter to what the store does with a record. -/
theorem gist_recasts : Recasts fun _ => Run.gist where
  id _ _ := rfl
  cancel? _ r now := by
    unfold cancel?
    change (if r.status.isTerminal then _ else _) = _
    split <;> rfl
  merge _ stored r := by
    unfold Store.merge
    change (if stored.status == .cancelled then _ else _) = _
    split
    · cases hstored : stored.error <;> simp [gist, hstored]
    · rfl

variable (r : Run)

theorem gist_addNode (record : NodeRun) :
    (r.addNode record).gist = r.gist.addNode record.gist := by
  simp [gist, addNode]

theorem gist_updateNode (record : NodeRun) :
    (r.updateNode record).gist = r.gist.updateNode record.gist := by
  simp [gist, updateNode, List.map_dropLast]

/-- It does not matter why a run fails. -/
theorem gist_fail (error : String) (now : Nat) : (r.fail error now).gist = r.gist.fail "" now := rfl

theorem gist_cancel (now : Nat) : (r.cancel now).gist = r.gist.cancel now := by
  unfold cancel
  rw [gist_recasts.cancel? "" r now]
  cases r.cancel? now <;> rfl

end Run

/-! ## Verdicts and logs -/

/-- Two verdicts that are the same, but for the words of a failure. -/
inductive Verdict.Alike : Verdict → Verdict → Prop
  | completed (output : Output) : Alike (.completed output) (.completed output)
  | failed (error error' : String) : Alike (.failed error) (.failed error')
  | cancelled : Alike .cancelled .cancelled
  | timedOut : Alike .timedOut .timedOut

theorem Verdict.Alike.refl : ∀ verdict : Verdict, verdict.Alike verdict
  | .completed output => .completed output
  | .failed error => .failed error error
  | .cancelled => .cancelled
  | .timedOut => .timedOut

/-- Two logs that keep the same, of which the entries differ in words only. -/
structure Logger.Alike (log log' : Logger) : Prop where
  threshold : log.threshold = log'.threshold
  entries : log.entries.map LogEntry.gist = log'.entries.map LogEntry.gist

namespace Logger.Alike

variable {log log' : Logger}

theorem refl (log : Logger) : log.Alike log := ⟨rfl, rfl⟩

theorem write (h : log.Alike log') (now : Nat) {note note' : Note}
    (hlevel : note.level = note'.level) (hdata : note.data = note'.data) :
    (log.write now note).Alike (log'.write now note') := by
  have hkeeps : log.keeps note.level = log'.keeps note'.level := by
    simp only [Logger.keeps, h.threshold, hlevel]
  unfold Logger.write
  rw [hkeeps]
  split
  · exact ⟨h.threshold, by simp [h.entries, LogEntry.gist, hlevel, hdata]⟩
  · exact h

theorem writeAll (now : Nat) (notes : List Note) : ∀ {log log' : Logger}, log.Alike log' →
    (log.writeAll now notes).Alike (log'.writeAll now notes) := by
  induction notes with
  | nil => exact id
  | cons note notes ih => exact fun h => ih (h.write now rfl rfl)

end Logger.Alike

/-! ## Records of nodes -/

/-- What is known of a node when it is started. -/
theorem NodeRun.gist_start {node node' : Node} (hid : node'.id = node.id)
    (htype : node'.type = node.type) (vars : Json.Fields) (now : Nat) :
    (start node vars now).gist = (start node' vars now).gist := by
  have hinput : ∀ data : Value, Json.Fields.erase "data"
      (.ofList [("data", data), ("variables", .object vars)]) = [("variables", .object vars)] := by
    intro data
    have hsorted : Json.Fields.Sorted [("data", data), ("variables", .object vars)] :=
      List.pairwise_pair.mpr (by decide : "data" < "variables")
    rw [Json.Fields.ofList_of_sorted hsorted]
    rfl
  simp only [start, gist, Value.ofFields, hinput, hid, htype]

section

variable {started started' : NodeRun} (hstarted : started.gist = started'.gist)
  {verdict verdict' : Verdict} (hverdict : verdict.Alike verdict') (settings : Settings) (now : Nat)

include hstarted hverdict

theorem NodeRun.gist_conclude : (started.conclude settings now verdict).gist =
    (started'.conclude settings now verdict').gist := by
  cases hverdict with
  | completed output => exact congrArg (·.complete output.value now) hstarted
  | failed error error' => exact congrArg (·.fail "" now) hstarted
  | cancelled => exact congrArg (fun r => { r.cancel now with error := some "" }) hstarted
  | timedOut => exact congrArg (·.fail "" now) hstarted

/-- What is known of a node when it has ended. -/
theorem NodeRun.gist_close {log log' : Logger} (hlog : log.Alike log') (node node' : Node)
    (number : Nat) : (started.close settings node now number log verdict).gist =
      (started'.close settings node' now number log' verdict').gist := by
  have hlogs : (log.write now (verdict.note settings node)).Alike
      (log'.write now (verdict'.note settings node')) := by
    cases hverdict <;> exact hlog.write now rfl rfl
  have hconclude := NodeRun.gist_conclude hstarted hverdict settings now
  change { (started.conclude settings now verdict).gist with
    attempts := number
    logs := (log.write now (verdict.note settings node)).entries.map LogEntry.gist } = _
  rw [hconclude, hlogs.entries]
  rfl

end

/-- What a node leaves in the context. -/
theorem Context.absorb_alike (c : Context) {verdict verdict' : Verdict}
    (hverdict : verdict.Alike verdict') {node node' : Node} (hid : node'.id = node.id) :
    c.absorb node verdict = c.absorb node' verdict' := by
  cases hverdict with
  | completed output => simp only [absorb, hid]
  | failed error error' => rfl
  | cancelled => rfl
  | timedOut => rfl

end Automation
