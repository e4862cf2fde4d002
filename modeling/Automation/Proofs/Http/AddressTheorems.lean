/-
Automation.Proofs.Http.AddressTheorems — the paths of workflows.

A name spells an id if it can stand between two slashes of a path and reads
as the id (`Spells`). Every id can be spelled: `percentEncode` keeps the
characters that stand for themselves and writes every other byte as `%` and
two digits (`spells_percentEncode`). So each workflow has a path
(`segments_workflowPath`), and what that path asks for depends on the word
`validate` alone (`operation?_workflowPath`), which the table of routes takes
for itself.
-/
import Automation.Proofs.Text.Utf8Theorems
import Automation.Proofs.Http.ServerTheorems

namespace Automation.Http

open Automation.Text

/-! ## Bytes in a path -/

/-- Whether a byte stands for itself in a path: a letter or a digit of ASCII, or
one of four marks. -/
def isUnreserved (b : Nat) : Bool :=
  let c := Char.ofNat b
  c.isAlphanum || c == '-' || c == '.' || c == '_' || c == '~'

/-- The digit of base sixteen of a number below sixteen. -/
def hexDigit (n : Nat) : Char :=
  if n < 10 then Char.ofNat (48 + n) else Char.ofNat (55 + n)

/-- A byte, written for a path. -/
def percentEncodeByte (b : Nat) : List Char :=
  if isUnreserved b then [Char.ofNat b] else ['%', hexDigit (b / 16), hexDigit (b % 16)]

/-- A text, written for a path. -/
def percentEncode (s : String) : String :=
  String.ofList ((Utf8.write s).flatMap percentEncodeByte)

theorem hexDigit?_hexDigit : ∀ n < 16, Json.Reader.hexDigit? (hexDigit n) = some n := by
  decide

/-- What an encoded byte is made of: ASCII, without the marks that cut a target. -/
theorem percentEncodeByte_plain : ∀ b < 256, ∀ c ∈ percentEncodeByte b,
    c.toNat ≤ 0x7F ∧ c ≠ '/' ∧ c ≠ '?' ∧ c ≠ '#' := by
  have hall : ∀ b < 256, (percentEncodeByte b).all fun c =>
      c.toNat ≤ 0x7F ∧ c ≠ '/' ∧ c ≠ '?' ∧ c ≠ '#' := by decide +kernel
  intro b hb c hc
  exact of_decide_eq_true (List.all_eq_true.mp (hall b hb) c hc)

theorem toNat_of_isUnreserved : ∀ b < 256, isUnreserved b → (Char.ofNat b).toNat = b ∧ b ≠ 37 := by
  decide +kernel

theorem toNat_hexDigit : ∀ n < 16, Char.ofNat (hexDigit n).toNat = hexDigit n := by
  decide

theorem lt_of_mem_write {s : String} {b : Nat} (h : b ∈ Utf8.write s) : b < 256 := by
  obtain ⟨byte, _, rfl⟩ := List.mem_map.mp h
  exact byte.toNat_lt

/-! ## Decoding -/

/-- A byte other than `%` stands for itself. -/
theorem percentDecode_of_ne {b : Nat} (h : b ≠ 37) (rest : List Nat) :
    percentDecode (b :: rest) = b :: percentDecode rest := by
  match rest with
  | [] => rfl
  | [_] => rfl
  | c :: d :: rest =>
    have hb : (b == '%'.toNat) = false := by simpa using h
    rw [percentDecode]
    simp only [hb]

theorem percentDecode_encodeByte {b : Nat} (h : b < 256) (rest : List Nat) :
    percentDecode ((percentEncodeByte b).map Char.toNat ++ rest) = b :: percentDecode rest := by
  unfold percentEncodeByte
  split
  · next hb =>
    obtain ⟨htoNat, hne⟩ := toNat_of_isUnreserved b h hb
    rw [List.map_singleton, htoNat, List.singleton_append, percentDecode_of_ne hne]
  · have hhigh : b / 16 < 16 := by omega
    have hlow : b % 16 < 16 := by omega
    have hvalue : b / 16 * 16 + b % 16 = b := by omega
    simp only [List.map_cons, List.map_nil, List.cons_append, List.nil_append]
    rw [percentDecode]
    simp only [toNat_hexDigit _ hhigh, toNat_hexDigit _ hlow, hexDigit?_hexDigit _ hhigh,
      hexDigit?_hexDigit _ hlow, beq_self_eq_true, hvalue]

/-- What is encoded is decoded again. -/
theorem segmentName?_percentEncode (s : String) : segmentName? (percentEncode s) = some s := by
  have hwrite : Utf8.write (percentEncode s) =
      ((Utf8.write s).flatMap percentEncodeByte).map Char.toNat := by
    rw [percentEncode, Utf8.write_ofList, List.flatMap_assoc, List.map_flatMap]
    refine List.flatMap_congr fun b hb => ?_
    exact Utf8.flatMap_encode_of_le fun c hc =>
      (percentEncodeByte_plain b (lt_of_mem_write hb) c hc).1
  have hdecode : ∀ bytes : List Nat, (∀ b ∈ bytes, b < 256) →
      percentDecode ((bytes.flatMap percentEncodeByte).map Char.toNat) = bytes := by
    intro bytes hbytes
    induction bytes with
    | nil => rfl
    | cons b rest ih =>
      obtain ⟨hb, hrest⟩ := List.forall_mem_cons.mp hbytes
      rw [List.flatMap_cons, List.map_append, percentDecode_encodeByte hb, ih hrest]
  rw [segmentName?, hwrite, hdecode _ fun b hb => lt_of_mem_write hb, Utf8.read?_write]

/-! ## Cutting a target -/

theorem cut_singleton_of_not_mem {mark : Char} {s : List Char} (h : mark ∉ s) :
    cut [mark] s = none := by
  induction s with
  | nil => rfl
  | cons c rest ih =>
    obtain ⟨hc, hrest⟩ := not_or.mp (mt List.mem_cons.mpr h)
    have hprefix : [mark].isPrefixOf (c :: rest) = false := by simp [List.isPrefixOf, hc]
    rw [cut, hprefix, ih hrest]
    rfl

theorem cutAt_of_not_mem {mark : Char} {s : List Char} (h : mark ∉ s) : cutAt mark s = (s, []) := by
  rw [cutAt, cut_singleton_of_not_mem h]
  rfl

theorem splitAt_of_not_mem {mark : Char} {s : List Char} (h : mark ∉ s) : splitAt mark s = [s] := by
  induction s with
  | nil => rfl
  | cons c rest ih =>
    obtain ⟨hc, hrest⟩ := not_or.mp (mt List.mem_cons.mpr h)
    rw [splitAt, if_neg (by simpa using Ne.symm hc), ih hrest]

theorem splitAt_append {mark : Char} {s : List Char} (h : mark ∉ s) (rest : List Char) :
    splitAt mark (s ++ mark :: rest) = s :: splitAt mark rest := by
  induction s with
  | nil => simp [splitAt]
  | cons c more ih =>
    obtain ⟨hc, hmore⟩ := not_or.mp (mt List.mem_cons.mpr h)
    rw [List.cons_append, splitAt, if_neg (by simpa using Ne.symm hc), ih hmore]

/-! ## Paths of workflows -/

/-- A name that can stand between two slashes of a path, and reads as the id. -/
structure Spells (name id : String) : Prop where
  plain : ∀ c ∈ name.toList, c ≠ '/' ∧ c ≠ '?' ∧ c ≠ '#'
  names : segmentName? name = some id

/-- Every id can be spelled. -/
theorem spells_percentEncode (id : String) : Spells (percentEncode id) id where
  plain := by
    intro c hc
    rw [percentEncode, String.toList_ofList] at hc
    obtain ⟨b, hb, hc⟩ := List.mem_flatMap.mp hc
    exact (percentEncodeByte_plain b (lt_of_mem_write hb) c hc).2
  names := segmentName?_percentEncode id

theorem percentEncode_eq_validate {id : String} :
    percentEncode id = "validate" ↔ id = "validate" := by
  have hvalidate : percentEncode "validate" = "validate" := by decide +kernel
  refine ⟨fun h => ?_, fun h => h ▸ hvalidate⟩
  have hnames := segmentName?_percentEncode id
  rw [h, ← hvalidate, segmentName?_percentEncode] at hnames
  exact (Option.some.inj hnames).symm

/-- The path of the workflow of a name. -/
def workflowPath (name : String) : String :=
  "/api/workflows/" ++ name

theorem segments_workflowPath {name id : String} (h : Spells name id) :
    (Address.ofText (workflowPath name)).segments = ["api", "workflows", name] := by
  have hplain := h.plain
  have hslash : '/' ∉ name.toList := fun hmem => (hplain _ hmem).1 rfl
  have htext : (workflowPath name).toList = "/api/workflows/".toList ++ name.toList :=
    String.toList_append
  have hhash : '#' ∉ (workflowPath name).toList := by
    rw [htext, List.mem_append, not_or]
    exact ⟨by decide, fun hmem => (hplain _ hmem).2.2 rfl⟩
  have hmark : '?' ∉ (workflowPath name).toList := by
    rw [htext, List.mem_append, not_or]
    exact ⟨by decide, fun hmem => (hplain _ hmem).2.1 rfl⟩
  have hserver : dropServer (workflowPath name).toList = (workflowPath name).toList := by
    rw [dropServer, htext]
    rfl
  have hsplit : splitAt '/' (workflowPath name).toList =
      [[], "api".toList, "workflows".toList, name.toList] := by
    have hpath : (workflowPath name).toList =
        [] ++ '/' :: ("api".toList ++ '/' :: ("workflows".toList ++ '/' :: name.toList)) := htext
    rw [hpath, splitAt_append (by simp), splitAt_append (by decide), splitAt_append (by decide),
      splitAt_of_not_mem hslash]
  simp only [Address.ofText, hserver, cutAt_of_not_mem hhash, cutAt_of_not_mem hmark, hsplit,
    List.drop_succ_cons, List.drop_zero, List.map_cons, List.map_nil, String.ofList_toList]

/-- A name that is not empty means a workflow, unless it is the word that the
validation goes by. -/
theorem ofSegments?_workflow {name : String} (hname : name ≠ "") :
    Route.ofSegments? ["api", "workflows", name] =
      some (if name = "validate" then .validation else .workflow name) := by
  by_cases hvalidate : name = "validate"
  · subst hvalidate
    rfl
  · rw [if_neg hvalidate]
    unfold Route.ofSegments?
    split <;> simp_all

/-- What a method means on the path of a workflow. -/
theorem operation?_workflowPath {name id : String} (h : Spells name id) (hid : id ≠ "")
    (method : String) (contentType : Option String) (body : String) :
    Request.operation? ⟨method, workflowPath name, contentType, body⟩ =
      (if name = "validate" then Route.validation else .workflow name).operation? method := by
  have hname : name ≠ "" := by
    rintro rfl
    have hnames := h.names
    have hempty : segmentName? "" = some "" := by decide +kernel
    rw [hempty] at hnames
    exact hid (Option.some.inj hnames).symm
  unfold Request.operation?
  rw [segments_workflowPath h, ofSegments?_workflow hname, Option.bind_some]

end Automation.Http
