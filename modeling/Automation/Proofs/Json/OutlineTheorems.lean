/-
Automation.Proofs.Json.OutlineTheorems — values and their outlines.

An outline may give the fields of an object in any order, and a key twice.
A value that comes from one has its fields in order, those of its parts
included (`Outline.ordered_of_value?`); and such a value is what its own
outline gives (`Outline.value?_ofValue`).
-/
import Automation.Json.Outline

namespace Automation.Json

/-! ## Fields -/

namespace Fields

theorem mem_insert {key : String} {value : Value} {fields : Fields} {f : String × Value}
    (h : f ∈ insert key value fields) : f = (key, value) ∨ f ∈ fields := by
  induction fields with
  | nil => exact .inl (List.mem_singleton.mp h)
  | cons g rest ih =>
    obtain ⟨k, v⟩ := g
    unfold insert at h
    split at h
    · exact List.mem_cons.mp h
    split at h
    · exact (List.mem_cons.mp h).imp_right (List.mem_cons_of_mem _)
    · rcases List.mem_cons.mp h with rfl | h
      · exact .inr List.mem_cons_self
      · exact (ih h).imp_right (List.mem_cons_of_mem _)

/-- Putting in order brings in no field. -/
theorem mem_ofList {fields : List (String × Value)} {f : String × Value} (h : f ∈ ofList fields) :
    f ∈ fields := by
  suffices hmerge : ∀ (newer base : Fields), f ∈ merge base newer → f ∈ base ∨ f ∈ newer from
    (hmerge fields [] h).resolve_left List.not_mem_nil
  intro newer
  induction newer with
  | nil => exact fun _ h => .inl h
  | cons g rest ih =>
    intro base h
    rcases ih _ h with h | h
    · rcases mem_insert h with rfl | h
      · exact .inr List.mem_cons_self
      · exact .inl h
    · exact .inr (List.mem_cons_of_mem _ h)

theorem mem_insert_self (key : String) (value : Value) (fields : Fields) :
    (key, value) ∈ insert key value fields := by
  induction fields with
  | nil => exact List.mem_cons_self
  | cons g rest ih =>
    unfold insert
    split
    · exact List.mem_cons_self
    split
    · exact List.mem_cons_self
    · exact List.mem_cons_of_mem _ ih

/-- A field stays when another key is given a value. -/
theorem mem_insert_of_ne {key : String} {f : String × Value} (value : Value) {fields : Fields}
    (h : f ∈ fields) (hne : f.1 ≠ key) : f ∈ insert key value fields := by
  induction fields with
  | nil => cases h
  | cons g rest ih =>
    obtain ⟨k, v⟩ := g
    unfold insert
    split
    · exact List.mem_cons_of_mem _ h
    split
    · next heq =>
      rcases List.mem_cons.mp h with rfl | h
      · exact absurd heq.symm hne
      · exact List.mem_cons_of_mem _ h
    · rcases List.mem_cons.mp h with rfl | h
      · exact List.mem_cons_self
      · exact List.mem_cons_of_mem _ (ih h)

/-- Putting in order loses no field of keys that stand once. -/
theorem mem_ofList_of_nodup {fields : List (String × Value)} (hkeys : (fields.map (·.1)).Nodup)
    {f : String × Value} (h : f ∈ fields) : f ∈ ofList fields := by
  suffices hmerge : ∀ newer base : Fields, (newer.map (·.1)).Nodup →
      (f ∈ newer ∨ f ∈ base ∧ f.1 ∉ newer.map (·.1)) → f ∈ merge base newer from
    hmerge fields [] hkeys (.inl h)
  intro newer
  induction newer with
  | nil => exact fun base _ h => (h.resolve_left List.not_mem_nil).1
  | cons g rest ih =>
    intro base hkeys h
    obtain ⟨hg, hrest⟩ := List.nodup_cons.mp hkeys
    refine ih _ hrest ?_
    rcases h with h | ⟨h, hnew⟩
    · rcases List.mem_cons.mp h with rfl | h
      · exact .inr ⟨mem_insert_self _ _ _, hg⟩
      · exact .inl h
    · obtain ⟨hne, hnew⟩ := not_or.mp (mt List.mem_cons.mpr hnew)
      exact .inr ⟨mem_insert_of_ne _ h hne, hnew⟩

/-- A key behind all others is put last. -/
theorem insert_of_lt {key : String} (value : Value) {fields : Fields}
    (h : ∀ f ∈ fields, f.1 < key) : insert key value fields = fields ++ [(key, value)] := by
  induction fields with
  | nil => rfl
  | cons g rest ih =>
    obtain ⟨k, v⟩ := g
    obtain ⟨hk, hrest⟩ := List.forall_mem_cons.mp h
    have hne : key ≠ k := fun heq => String.lt_irrefl k (heq ▸ hk)
    rw [insert, if_neg (String.lt_asymm hk), if_neg hne, ih hrest, List.cons_append]

/-- Nothing changes about fields that are in order. -/
theorem ofList_of_sorted {fields : Fields} (h : fields.Sorted) : ofList fields = fields := by
  suffices hmerge : ∀ newer base : Fields, (base ++ newer).Sorted →
      merge base newer = base ++ newer from hmerge fields [] h
  intro newer
  induction newer with
  | nil => exact fun base _ => (List.append_nil base).symm
  | cons f rest ih =>
    intro base h
    have hlast : ∀ g ∈ base, g.1 < f.1 := fun g hg =>
      (List.pairwise_append.mp h).2.2 g hg f List.mem_cons_self
    have hsplit : base ++ f :: rest = base ++ [f] ++ rest := by simp
    rw [hsplit] at h ⊢
    rw [← ih _ h, ← insert_of_lt f.2 hlast]
    rfl

end Fields

/-! ## Values in order -/

namespace Value

mutual

/-- The fields of every object in the value stand in ascending order. -/
def Ordered : Value → Prop
  | .array items => OrderedItems items
  | .object fields => Fields.Sorted fields ∧ OrderedFields fields
  | _ => True

/-- All items are in order. -/
def OrderedItems : List Value → Prop
  | [] => True
  | v :: rest => v.Ordered ∧ OrderedItems rest

/-- All that stands under the keys is in order. -/
def OrderedFields : List (String × Value) → Prop
  | [] => True
  | (_, v) :: rest => v.Ordered ∧ OrderedFields rest

end

theorem orderedFields_iff {fields : List (String × Value)} :
    OrderedFields fields ↔ ∀ f ∈ fields, f.2.Ordered := by
  induction fields with
  | nil => simp [OrderedFields]
  | cons f rest ih => simp [OrderedFields, ih]

end Value

namespace Outline

open Value

mutual

/-- **A value that is read is in order.** -/
theorem ordered_of_value? : ∀ {o : Outline} {v : Value}, o.value? = some v → v.Ordered
  | .null, _, h => by cases h; trivial
  | .bool _, _, h => by cases h; trivial
  | .number _, _, h => by cases h; trivial
  | .string _, _, h => by cases h; trivial
  | .array items closed, v, h => by
    unfold value? at h
    split at h
    · obtain ⟨vs, hitems, rfl⟩ := Option.map_eq_some_iff.mp h
      exact ordered_of_items? hitems
    · cases h
  | .object fields closed, v, h => by
    unfold value? at h
    split at h
    · obtain ⟨fs, hfields, rfl⟩ := Option.map_eq_some_iff.mp h
      have hordered := orderedFields_iff.mp (ordered_of_fields? hfields)
      exact ⟨Fields.ofList_sorted fs,
        orderedFields_iff.mpr fun f hf => hordered f (Fields.mem_ofList hf)⟩
    · cases h
  | .unreadable _, _, h => by cases h
  | .broken, _, h => by cases h

theorem ordered_of_items? : ∀ {items : List Outline} {vs : List Value},
    items? items = some vs → OrderedItems vs
  | [], _, h => by cases h; trivial
  | o :: rest, vs, h => by
    unfold items? at h
    obtain ⟨v, hv, h⟩ := Option.bind_eq_some_iff.mp h
    obtain ⟨more, hmore, h⟩ := Option.bind_eq_some_iff.mp h
    cases h
    exact ⟨ordered_of_value? hv, ordered_of_items? hmore⟩

theorem ordered_of_fields? : ∀ {fields : List (Outline × Outline)} {fs : List (String × Value)},
    fields? fields = some fs → OrderedFields fs
  | [], _, h => by cases h; trivial
  | (k, o) :: rest, fs, h => by
    unfold fields? at h
    obtain ⟨key, _, h⟩ := Option.bind_eq_some_iff.mp h
    obtain ⟨v, hv, h⟩ := Option.bind_eq_some_iff.mp h
    obtain ⟨more, hmore, h⟩ := Option.bind_eq_some_iff.mp h
    cases h
    exact ⟨ordered_of_value? hv, ordered_of_fields? hmore⟩

end

mutual

/-- **A value in order is the one that its outline gives.** -/
theorem value?_ofValue : ∀ {v : Value}, v.Ordered → (ofValue v).value? = some v
  | .null, _ => rfl
  | .bool _, _ => rfl
  | .number _, _ => rfl
  | .string _, _ => rfl
  | .array items, h => by
    simp [ofValue, value?, items?_ofItems h]
  | .object fields, h => by
    simp [ofValue, value?, fields?_ofFields h.2, Fields.ofList_of_sorted h.1]

theorem items?_ofItems : ∀ {items : List Value}, OrderedItems items →
    items? (ofItems items) = some items
  | [], _ => rfl
  | v :: rest, h => by
    simp [ofItems, items?, value?_ofValue h.1, items?_ofItems h.2]

theorem fields?_ofFields : ∀ {fields : List (String × Value)}, OrderedFields fields →
    fields? (ofFields fields) = some fields
  | [], _ => rfl
  | (k, v) :: rest, h => by
    simp [ofFields, fields?, text?, value?_ofValue h.1, fields?_ofFields h.2]

end

mutual

/-- Nothing breaks off in the outline of a value. -/
theorem isWhole_ofValue : ∀ v : Value, (ofValue v).isWhole
  | .null => rfl
  | .bool _ => rfl
  | .number _ => rfl
  | .string _ => rfl
  | .array items => by
    simp [ofValue, isWhole, areWholeItems_ofItems items]
  | .object fields => by
    simp [ofValue, isWhole, areWholeFields_ofFields fields]

theorem areWholeItems_ofItems : ∀ items : List Value, areWholeItems (ofItems items)
  | [] => rfl
  | v :: rest => by
    simp [ofItems, areWholeItems, isWhole_ofValue v, areWholeItems_ofItems rest]

theorem areWholeFields_ofFields : ∀ fields : List (String × Value),
    areWholeFields (ofFields fields)
  | [] => rfl
  | (k, v) :: rest => by
    simp [ofFields, areWholeFields, isWhole, isWhole_ofValue v, areWholeFields_ofFields rest]

end

theorem ofFields_eq_map (fields : List (String × Value)) :
    ofFields fields = fields.map fun f => (.string f.1, ofValue f.2) := by
  induction fields with
  | nil => rfl
  | cons f rest ih => rw [ofFields, ih, List.map_cons]

end Outline

end Automation.Json
