/-
Automation.Proofs.Json.FieldTheorems — looking up a key.

What a key has after a field was set or taken away, and after fields were
laid over others: then the last value that the newer fields give a key
counts, and the older fields only where they give it none (`get?_merge`).
Fields in order give a key one value at most, so there the last one is the
only one (`Sorted.get?_merge`).
-/
import Automation.Json.Value

namespace Automation.Json.Fields

theorem get?_nil (key : String) : get? [] key = none := rfl

theorem get?_cons (k : String) (v : Value) (rest : Fields) (key : String) :
    get? ((k, v) :: rest) key = if k = key then some v else rest.get? key := by
  by_cases h : k = key <;> simp [get?, h]

theorem get?_append (fields rest : Fields) (key : String) :
    get? (fields ++ rest) key = (fields.get? key).or (rest.get? key) := by
  simp only [get?, List.find?_append]
  cases fields.find? fun field => field.1 == key <;> rfl

/-- The key that was given a value has it, and the others have theirs. -/
theorem get?_insert (key : String) (value : Value) (fields : Fields) (key' : String) :
    (fields.insert key value).get? key' = if key' = key then some value else fields.get? key' := by
  induction fields with
  | nil => simp [insert, get?_cons, eq_comm]
  | cons field rest ih =>
    obtain ⟨k, v⟩ := field
    unfold insert
    split
    · simp [get?_cons, eq_comm]
    · split
      · next hk =>
        subst hk
        by_cases h : key' = key <;> simp [get?_cons, h, Ne.symm]
      · next hk =>
        by_cases h : k = key'
        · subst h
          simp [get?_cons, Ne.symm hk]
        · simpa [get?_cons, h] using ih

/-- The key that was taken away has no value, and the others have theirs. -/
theorem get?_erase (key : String) (fields : Fields) (key' : String) :
    (fields.erase key).get? key' = if key' = key then none else fields.get? key' := by
  induction fields with
  | nil => simp [erase, get?_nil]
  | cons field rest ih =>
    obtain ⟨k, v⟩ := field
    have herase : erase key ((k, v) :: rest) =
        if k = key then erase key rest else (k, v) :: erase key rest := by
      by_cases h : k = key <;> simp [erase, h]
    rw [herase]
    split
    · next hk =>
      subst hk
      rw [ih, get?_cons]
      by_cases h : key' = k <;> simp [h, Ne.symm]
    · next hk =>
      by_cases h : key' = key
      · subst h
        simp [get?_cons, hk, ih]
      · simp [get?_cons, ih, h]

/-- The last value that the newer fields give a key counts. -/
theorem get?_merge (fields newer : Fields) (key : String) :
    (fields.merge newer).get? key = (get? newer.reverse key).or (fields.get? key) := by
  induction newer generalizing fields with
  | nil => rfl
  | cons field rest ih =>
    obtain ⟨k, v⟩ := field
    have hstep : fields.merge ((k, v) :: rest) = (fields.insert k v).merge rest := rfl
    rw [hstep, ih, List.reverse_cons, get?_append, get?_cons, get?_insert, get?_nil,
      Option.or_assoc]
    by_cases h : k = key
    · subst h
      simp
    · simp [h, Ne.symm h]

/-- Fields in order give a key no second value. -/
theorem Sorted.get?_tail {k : String} {v : Value} {rest : Fields}
    (h : Sorted ((k, v) :: rest)) : rest.get? k = none := by
  have hk : rest.find? (fun field => field.1 == k) = none := by
    refine List.find?_eq_none.mpr fun field hfield => ?_
    have hlt := (List.pairwise_cons.mp h).1 field hfield
    intro heq
    rw [beq_iff_eq.mp heq] at hlt
    exact String.lt_irrefl k hlt
  rw [get?, hk]
  rfl

theorem Sorted.get?_reverse {fields : Fields} (h : fields.Sorted) (key : String) :
    get? fields.reverse key = fields.get? key := by
  induction fields with
  | nil => rfl
  | cons field rest ih =>
    obtain ⟨k, v⟩ := field
    rw [List.reverse_cons, get?_append, ih (List.pairwise_cons.mp h).2, get?_cons, get?_cons]
    by_cases hk : k = key
    · subst hk
      simp [h.get?_tail]
    · simp [hk, get?_nil]

/-- Of two values of a key the newer one counts. -/
theorem Sorted.get?_merge {newer : Fields} (h : newer.Sorted) (fields : Fields) (key : String) :
    (fields.merge newer).get? key = (newer.get? key).or (fields.get? key) := by
  rw [Fields.get?_merge, h.get?_reverse]

/-- Fields laid over fields in order are put in order. -/
theorem Sorted.merge {fields : Fields} (h : fields.Sorted) (newer : Fields) :
    (fields.merge newer).Sorted := by
  induction newer generalizing fields with
  | nil => exact h
  | cons field rest ih => exact ih (insert_sorted _ _ h)

end Automation.Json.Fields
