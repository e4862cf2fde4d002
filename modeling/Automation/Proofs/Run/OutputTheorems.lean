/-
Automation.Proofs.Run.OutputTheorems — reading the output of a node back.

The output of a node is kept under a key made from the id of the node, and
later nodes reach it by a path, `outputPath id`, or by that path between
double braces. What other nodes add to the context later does not touch it
(`get?_outputKey`).

A path is cut at its dots, so a node with a dot in its id cannot be reached
this way, and double braces in an id end the placeholder early.
`output_read_back_iff` says that nothing else stands in the way.
-/
import Automation.Proofs.Json.FieldTheorems
import Automation.Proofs.Run.InterpolationTheorems
import Automation.Workflow.Validation

namespace Automation

open Automation.Json (Value Fields)

namespace Context

/-! ## What is added to a context -/

/-- What a node adds to the context of its run. -/
inductive Addition where
  | output (nodeId : String) (value : Value)
  | tasks (references : List TaskReference)

/-- A context with an addition. -/
def add (c : Context) : Addition → Context
  | .output nodeId value => c.recordOutput nodeId value
  | .tasks references => c.recordTasks references

/-- The addition is no output of the node. -/
def Addition.Spares (id : String) : Addition → Prop
  | .output nodeId _ => nodeId ≠ id
  | .tasks _ => True

/-- Different nodes have their outputs under different keys. -/
theorem outputKey_injective {id id' : String} (h : outputKey id = outputKey id') : id = id' :=
  (String.append_right_inj _).1 ((String.append_left_inj _).1 h)

/-- The output of a node stays until it is recorded anew. -/
theorem get?_outputKey (c : Context) (id : String) (v : Value) (later : List Addition)
    (h : ∀ a ∈ later, a.Spares id) :
    (later.foldl add (c.recordOutput id v)).vars.get? (outputKey id) = some v := by
  suffices hstays : ∀ (later : List Addition) (c : Context), (∀ a ∈ later, a.Spares id) →
      c.vars.get? (outputKey id) = some v →
      (later.foldl add c).vars.get? (outputKey id) = some v from
    hstays later _ h (by simp [recordOutput, Fields.get?_insert])
  intro later
  induction later with
  | nil => exact fun _ _ hc => hc
  | cons a rest ih =>
    intro c hspares hc
    obtain ⟨ha, hrest⟩ := List.forall_mem_cons.1 hspares
    refine ih _ hrest ?_
    cases a with
    | output nodeId value =>
      have hkey : outputKey id ≠ outputKey nodeId := fun hkey => ha (outputKey_injective hkey).symm
      simpa [add, recordOutput, Fields.get?_insert, hkey] using hc
    | tasks references => exact hc

/-! ## The path of an output -/

/-- The path that leads to the output of a node. -/
def outputPath (id : String) : List Char :=
  "variables".toList ++ '.' :: (outputKey id).toList

/-- The text that asks for the value at a path. -/
def placeholder (path : List Char) : String :=
  String.ofList (Template.opening ++ path ++ Template.closing)

theorem toList_outputKey (id : String) :
    (outputKey id).toList = "node_".toList ++ id.toList ++ "_output".toList := by
  simp [outputKey]

/-- The path begins and ends with a letter. -/
theorem trim_outputPath (id : String) : Text.trim (outputPath id) = outputPath id := by
  have hfirst : "variables".toList = 'v' :: "ariables".toList := by decide
  have hlast : "_output".toList = "_outpu".toList ++ ['t'] := by decide
  have hends : outputPath id = 'v' :: ("ariables".toList ++ '.' :: ("node_".toList ++ id.toList ++
      "_outpu".toList)) ++ ['t'] := by
    unfold outputPath
    rw [toList_outputKey, hfirst, hlast]
    simp only [List.cons_append, List.append_assoc]
  rw [hends]
  refine Text.trim_eq_self ?_ ?_
  · rintro c ⟨⟩
    decide
  · intro c hc
    obtain rfl := Option.some.inj (List.getLast?_concat.symm.trans hc)
    decide

/-- A path whose first segment is the root of the variables goes down from
there. -/
theorem resolve_vars (c : Context) {path rest : List Char}
    (htrim : Text.trim path = "variables".toList ++ '.' :: rest) :
    c.resolve path = .ok ((Path.segments rest).foldl Path.step (.object c.vars)) := by
  have hsegments := Path.segments_append_dot (a := "variables".toList) (b := rest) (by decide)
  have hroot : Root.named? (String.ofList "variables".toList) = some .vars := by
    rw [String.ofList_toList]
    rfl
  simp only [resolve, resolveTrimmed, htrim, hsegments, List.headD_cons, hroot, List.tail_cons,
    root]

/-- Without a dot in the id, the path leads to the variable of the output. -/
theorem resolve_outputPath (c : Context) {id : String} (h : '.' ∉ id.toList) :
    c.resolve (outputPath id) = .ok ((c.vars.get? (outputKey id)).getD .null) := by
  have hkey : '.' ∉ (outputKey id).toList := by
    simp [toList_outputKey, h]
  rw [resolve_vars c (trim_outputPath id), Path.segments_of_not_mem hkey]
  simp [Path.step]

/-- With a dot in the id, the path leads nowhere in a context with that
output and nothing else. -/
theorem resolve_outputPath_of_dot {id : String} (h : '.' ∈ id.toList) (v : Value) :
    ((default : Context).recordOutput id v).resolve (outputPath id) = .ok .null := by
  obtain ⟨a, b, hid, ha⟩ := List.eq_append_cons_of_mem h
  have hkey : (outputKey id).toList = ("node_".toList ++ a) ++ '.' :: (b ++ "_output".toList) := by
    simp [toList_outputKey, hid]
  have hfirst : '.' ∉ "node_".toList ++ a := by
    simp [ha]
  have hne : String.ofList ("node_".toList ++ a) ≠ outputKey id := by
    intro heq
    have hdot : '.' ∈ (outputKey id).toList := by simp [toList_outputKey, h]
    rw [← heq, String.toList_ofList] at hdot
    exact hfirst hdot
  rw [resolve_vars _ (trim_outputPath id), hkey, Path.segments_append_dot hfirst,
    List.foldl_cons]
  have hstep : Path.step (.object ((default : Context).recordOutput id v).vars)
      ("node_".toList ++ a) = .null := by
    simp only [Path.step, recordOutput, Fields.get?_insert, if_neg hne]
    rfl
  rw [hstep, Path.foldl_step_null]

/-! ## The placeholder of an output -/

open Template (opening closing Whole whole?_eq_some_iff whole?_eq_none)

/-- Braces do not begin in a part of the text that has none. -/
theorem infix_append_left_iff {x : Char} {a l : List Char} (h : x ∉ a) :
    [x, x] <:+: a ++ l ↔ [x, x] <:+: l := by
  induction a with
  | nil => rfl
  | cons c rest ih =>
    obtain ⟨hc, hrest⟩ := List.ne_and_not_mem_of_not_mem_cons h
    rw [List.cons_append, List.infix_cons_iff, ih hrest, or_iff_right]
    rintro ⟨t, ht⟩
    exact hc (List.cons.inj ht).1

/-- Double braces between two texts without any stand in the middle. -/
theorem infix_between_iff {x : Char} {a l b : List Char} (ha : x ∉ a) (hb : x ∉ b) :
    [x, x] <:+: a ++ l ++ b ↔ [x, x] <:+: l := by
  rw [List.append_assoc, infix_append_left_iff ha, ← List.reverse_infix, List.reverse_append]
  have hback : [x, x].reverse <:+: l.reverse ↔ [x, x] <:+: l := List.reverse_infix
  exact (infix_append_left_iff (by simpa using hb)).trans hback

/-- The braces in the path of an output are those in the id of the node. -/
theorem infix_outputPath_iff {x : Char} (id : String)
    (hx : x ∉ "variables.node_".toList) (hx' : x ∉ "_output".toList) :
    [x, x] <:+: outputPath id ↔ [x, x] <:+: id.toList := by
  have hpath : outputPath id = "variables.node_".toList ++ id.toList ++ "_output".toList := by
    have hfront : "variables.node_".toList = "variables".toList ++ '.' :: "node_".toList := by
      decide
    unfold outputPath
    rw [toList_outputKey, hfront]
    simp only [List.cons_append, List.append_assoc]
  rw [hpath, infix_between_iff hx hx']

/-- The text that asks for a path is one placeholder if the path has no
double braces in it, and otherwise it is not. -/
theorem whole_placeholder_iff {path p : List Char} :
    Whole (placeholder path).toList p ↔
      p = path ∧ ¬ opening <:+: path ∧ ¬ closing <:+: path := by
  have htrim : Text.trim (placeholder path).toList = opening ++ path ++ closing := by
    rw [placeholder, String.toList_ofList]
    refine Text.trim_eq_self ?_ ?_
    · rintro c ⟨⟩
      decide
    · intro c hc
      obtain rfl : '}' = c := by simpa [closing] using hc
      decide
  constructor
  · rintro ⟨heq, hopen, hclose⟩
    obtain rfl : path = p :=
      List.append_cancel_left (List.append_cancel_right (htrim.symm.trans heq))
    exact ⟨rfl, hopen, hclose⟩
  · rintro ⟨rfl, hopen, hclose⟩
    exact ⟨htrim, hopen, hclose⟩

/-- A path without double braces is looked up. -/
theorem interpolate_placeholder (c : Context) {path : List Char} (hopen : ¬ opening <:+: path)
    (hclose : ¬ closing <:+: path) :
    c.interpolate (.string (placeholder path)) = c.resolve path := by
  simp [interpolate, interpolateText,
    whole?_eq_some_iff.2 (whole_placeholder_iff.2 ⟨rfl, hopen, hclose⟩)]

/-- A path with double braces gives no value but a string. -/
theorem interpolate_placeholder_ne_null (c : Context) {path : List Char}
    (h : opening <:+: path ∨ closing <:+: path) :
    c.interpolate (.string (placeholder path)) ≠ .ok .null := by
  have hnot : ∀ p, ¬ Whole (placeholder path).toList p := fun p hp =>
    have ⟨_, hopen, hclose⟩ := whole_placeholder_iff.1 hp
    h.elim hopen hclose
  intro hnull
  rw [interpolate, interpolateText, whole?_eq_none hnot] at hnull
  obtain ⟨t, -, ht⟩ := map_eq_ok_iff.1 hnull
  cases ht

/-! ## Reading back -/

/-- Whatever a node has given out, and whatever other nodes add to the
context afterwards, its path leads to it exactly if there is no dot in the
id of the node; and the text with that path between double braces stands
for it, with its type, exactly if there are no double braces in the id
either. -/
theorem output_read_back_iff (id : String) :
    ((∀ (c : Context) (v : Value) (later : List Addition), (∀ a ∈ later, a.Spares id) →
        (later.foldl add (c.recordOutput id v)).resolve (outputPath id) = .ok v) ↔
      '.' ∉ id.toList) ∧
    ((∀ (c : Context) (v : Value) (later : List Addition), (∀ a ∈ later, a.Spares id) →
        (later.foldl add (c.recordOutput id v)).interpolate
          (.string (placeholder (outputPath id))) = .ok v) ↔
      '.' ∉ id.toList ∧ ¬ opening <:+: id.toList ∧ ¬ closing <:+: id.toList) := by
  have hopening : opening <:+: outputPath id ↔ opening <:+: id.toList :=
    infix_outputPath_iff id (by decide) (by decide)
  have hclosing : closing <:+: outputPath id ↔ closing <:+: id.toList :=
    infix_outputPath_iff id (by decide) (by decide)
  have hresolve : '.' ∉ id.toList → ∀ (c : Context) (v : Value) (later : List Addition),
      (∀ a ∈ later, a.Spares id) →
      (later.foldl add (c.recordOutput id v)).resolve (outputPath id) = .ok v := by
    intro hdot c v later hlater
    rw [resolve_outputPath _ hdot, get?_outputKey c id v later hlater, Option.getD_some]
  refine ⟨⟨fun h hdot => ?_, hresolve⟩, ⟨fun h => ?_, ?_⟩⟩
  · have hnull := (resolve_outputPath_of_dot hdot (.bool true)).symm.trans
      (h default (.bool true) [] (by simp))
    cases hnull
  · -- With double braces in the id even `null` is not read back, as it would have to be.
    have hmarks : ¬ (opening <:+: outputPath id ∨ closing <:+: outputPath id) := fun hmark =>
      interpolate_placeholder_ne_null _ hmark (h default .null [] (by simp))
    obtain ⟨hopen, hclose⟩ := not_or.1 hmarks
    refine ⟨fun hdot => ?_, mt hopening.2 hopen, mt hclosing.2 hclose⟩
    have hread := h default (.bool true) [] (by simp)
    rw [interpolate_placeholder _ hopen hclose] at hread
    cases (resolve_outputPath_of_dot hdot (.bool true)).symm.trans hread
  · rintro ⟨hdot, hopen, hclose⟩ c v later hlater
    rw [interpolate_placeholder _ (mt hopening.1 hopen) (mt hclosing.1 hclose)]
    exact hresolve hdot c v later hlater

/-- The output of `a` after one of `b` and a reference. -/
theorem output_read_back_iff_between_others :
    (∀ a ∈ [Addition.output "b" .null, .tasks [default]], a.Spares "a") ∧
    ([Addition.output "b" .null, .tasks [default]].foldl add
        ((default : Context).recordOutput "a" (.ofNat 5))).interpolate
      (.string (placeholder (outputPath "a"))) = .ok (.ofNat 5) := by
  have hspares : ∀ a ∈ [Addition.output "b" .null, .tasks [default]], a.Spares "a" := by
    simp [Addition.Spares]
  exact ⟨hspares, (output_read_back_iff "a").2.2 ⟨by decide, by decide, by decide⟩ _ _ _ hspares⟩

/-- One node, with a dot in its id. -/
def dotted : Workflow :=
  { (default : Workflow) with
    name := "dotted", nodes := [⟨"a.b", .delay, none, .null, [], []⟩] }

/-- The id of a node in a valid workflow may have a dot in it, and then the
output of the node is not read back. -/
theorem output_not_always_read_back :
    ¬ ∀ w : Workflow, w.isValid = true → ∀ node ∈ w.nodes, ∀ (c : Context) (v : Value),
      (c.recordOutput node.id v).resolve (outputPath node.id) = .ok v := by
  intro h
  have hread := h dotted (by decide) _ List.mem_cons_self default (.bool true)
  have hdot : '.' ∈ "a.b".toList := by decide
  cases (resolve_outputPath_of_dot hdot (.bool true)).symm.trans hread

end Context

end Automation
