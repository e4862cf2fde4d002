/-
Automation.Proofs.Text.Utf8Theorems — a text reads back from its bytes.

The bytes of a text are those of its characters, one after the other
(`write_ofList`). The reader takes the bytes of one character for this
character, whatever comes behind them (`characters_encode`); there is one
case for each number of bytes that a character may take, and with two bytes
or more the first one says how many are to come.
-/
import Automation.Text.Utf8
import Mathlib.Data.List.Basic

namespace Automation.Text.Utf8

/-- The bytes of a character. -/
def encode (c : Char) : List Nat :=
  (String.utf8EncodeChar c).map UInt8.toNat

/-! ## Writing -/

theorem toList_loop (bytes : ByteArray) (i : Nat) (found : List UInt8) :
    ByteArray.toList.loop bytes i found = found.reverse ++ bytes.data.toList.drop i := by
  unfold ByteArray.toList.loop
  split
  · next h =>
    have hget : bytes.data.toList.drop i = bytes.get! i :: bytes.data.toList.drop (i + 1) := by
      have hlt : i < bytes.data.toList.length := h
      rw [List.drop_eq_getElem_cons hlt]
      congr 1
      simp [ByteArray.get!, getElem!_pos bytes.data i h]
    rw [toList_loop bytes (i + 1), hget, List.reverse_cons, List.append_assoc,
      List.singleton_append]
  · next h =>
    have hle : bytes.data.toList.length ≤ i := Nat.le_of_not_lt h
    rw [List.drop_eq_nil_of_le hle, List.append_nil]
termination_by bytes.size - i

/-- The bytes of a text are those of its characters. -/
theorem write_ofList (cs : List Char) : write (String.ofList cs) = cs.flatMap encode := by
  have hbytes : (String.ofList cs).toUTF8.toList = cs.flatMap String.utf8EncodeChar := by
    rw [String.toUTF8_eq_toByteArray, String.toByteArray_ofList, List.utf8Encode, ByteArray.toList,
      toList_loop]
    simp
  rw [write, hbytes, List.map_flatMap]
  rfl

/-! ## Reading -/

section

variable {b : Nat} {p : Pending} {rest : List Nat}

theorem characters_first (h : first? b = some (.inr p)) :
    characters none (b :: rest) = characters (some p) rest := by
  rw [characters]
  simp only [h]

/-- A byte that may follow, and is not the last one. -/
theorem characters_next (h : p.least ≤ b ∧ b ≤ p.most) (hmore : p.more ≠ 1) :
    characters (some p) (b :: rest) =
      characters (some ⟨p.value * 64 + (b - 0x80), 0x80, 0xBF, p.more - 1⟩) rest := by
  rw [characters]
  simp [h, hmore]

/-- The last byte of a character. -/
theorem characters_last (h : p.least ≤ b ∧ b ≤ p.most) (hmore : p.more = 1) :
    characters (some p) (b :: rest) =
      some (Char.ofNat (p.value * 64 + (b - 0x80))) :: characters none rest := by
  rw [characters]
  simp [h, hmore]

end

/-- The numbers of characters leave out the surrogates. -/
theorem toNat_valid (c : Char) : c.toNat < 0xD800 ∨ 0xDFFF < c.toNat ∧ c.toNat < 0x110000 :=
  c.valid

theorem encode_one {c : Char} (h : c.toNat ≤ 0x7F) : encode c = [c.toNat] := by
  unfold encode String.utf8EncodeChar
  change c.val.toNat ≤ _ at h
  simp only [h, if_true, List.map_cons, List.map_nil, UInt8.toNat_ofNat', List.cons.injEq, and_true]
  exact Nat.mod_eq_of_lt (by omega)

/-- A character of ASCII is its own byte. -/
theorem flatMap_encode_of_le {cs : List Char} (h : ∀ c ∈ cs, c.toNat ≤ 0x7F) :
    cs.flatMap encode = cs.map Char.toNat := by
  induction cs with
  | nil => rfl
  | cons c rest ih =>
    obtain ⟨hc, hrest⟩ := List.forall_mem_cons.mp h
    rw [List.flatMap_cons, encode_one hc, ih hrest, List.singleton_append, List.map_cons]

theorem encode_two {c : Char} (h : 0x7F < c.toNat ∧ c.toNat ≤ 0x7FF) :
    encode c = [c.toNat / 64 + 0xC0, c.toNat % 64 + 0x80] := by
  unfold encode String.utf8EncodeChar
  change _ < c.val.toNat ∧ c.val.toNat ≤ _ at h
  simp only [Nat.not_le.mpr h.1, h.2, if_true, if_false, List.map_cons, List.map_nil,
    UInt8.toNat_ofNat', List.cons.injEq, and_true, Char.toNat]
  omega

theorem encode_three {c : Char} (h : 0x7FF < c.toNat ∧ c.toNat ≤ 0xFFFF) :
    encode c = [c.toNat / 4096 + 0xE0, c.toNat / 64 % 64 + 0x80, c.toNat % 64 + 0x80] := by
  unfold encode String.utf8EncodeChar
  change _ < c.val.toNat ∧ c.val.toNat ≤ _ at h
  have hone : ¬c.val.toNat ≤ 0x7F := by omega
  simp only [hone, Nat.not_le.mpr h.1, h.2, if_true, if_false, List.map_cons, List.map_nil,
    UInt8.toNat_ofNat', List.cons.injEq, and_true, Char.toNat]
  omega

theorem encode_four {c : Char} (h : 0xFFFF < c.toNat) :
    encode c = [c.toNat / 262144 + 0xF0, c.toNat / 4096 % 64 + 0x80, c.toNat / 64 % 64 + 0x80,
      c.toNat % 64 + 0x80] := by
  have hvalid := toNat_valid c
  unfold encode String.utf8EncodeChar
  change _ < c.val.toNat at h
  change c.val.toNat < _ ∨ _ < c.val.toNat ∧ c.val.toNat < _ at hvalid
  have hone : ¬c.val.toNat ≤ 0x7F := by omega
  have htwo : ¬c.val.toNat ≤ 0x7FF := by omega
  simp only [hone, htwo, Nat.not_le.mpr h, if_false, List.map_cons, List.map_nil,
    UInt8.toNat_ofNat', List.cons.injEq, and_true, Char.toNat]
  omega

theorem first?_two {n : Nat} (h : 0x7F < n ∧ n ≤ 0x7FF) :
    first? (n / 64 + 0xC0) = some (.inr ⟨n / 64, 0x80, 0xBF, 1⟩) := by
  have hone : ¬n / 64 + 0xC0 < 0x80 := by omega
  have htwo : (0xC2 ≤ n / 64 + 0xC0 && n / 64 + 0xC0 ≤ 0xDF) = true := by
    simp only [Bool.and_eq_true, decide_eq_true_eq]
    omega
  rw [first?, if_neg hone, if_pos htwo, Nat.add_sub_cancel]

/-- The first of three bytes does not let the second one be any that makes a
number of fewer bytes or a surrogate. -/
theorem first?_three {n : Nat} (h : 0x7FF < n ∧ n ≤ 0xFFFF) (hvalid : n < 0xD800 ∨ 0xDFFF < n) :
    ∃ least most, first? (n / 4096 + 0xE0) = some (.inr ⟨n / 4096, least, most, 2⟩) ∧
      least ≤ n / 64 % 64 + 0x80 ∧ n / 64 % 64 + 0x80 ≤ most := by
  by_cases hleast : n / 4096 = 0
  · rw [hleast]
    exact ⟨_, _, rfl, by omega, by omega⟩
  by_cases hsurrogate : n / 4096 = 13
  · rw [hsurrogate]
    exact ⟨_, _, rfl, by omega, by omega⟩
  · have hone : ¬n / 4096 + 0xE0 < 0x80 := by omega
    have htwo : ¬n / 4096 + 0xE0 ≤ 0xDF := by omega
    have hmost : n / 4096 + 0xE0 ≤ 0xEF := by omega
    have hpositive : 1 ≤ n / 4096 := by omega
    refine ⟨0x80, 0xBF, ?_, by omega, by omega⟩
    simp [first?, hone, htwo, hmost, hleast, hsurrogate, hpositive]

theorem first?_four {n : Nat} (h : 0xFFFF < n ∧ n < 0x110000) :
    ∃ least most, first? (n / 262144 + 0xF0) = some (.inr ⟨n / 262144, least, most, 3⟩) ∧
      least ≤ n / 4096 % 64 + 0x80 ∧ n / 4096 % 64 + 0x80 ≤ most := by
  have hcases : n / 262144 = 0 ∨ n / 262144 = 1 ∨ n / 262144 = 2 ∨ n / 262144 = 3 ∨
      n / 262144 = 4 := by omega
  rcases hcases with hn | hn | hn | hn | hn <;> rw [hn] <;>
    exact ⟨_, _, rfl, by omega, by omega⟩

/-- **A character is read from its bytes**, whatever comes behind them. -/
theorem characters_encode (c : Char) (rest : List Nat) :
    characters none (encode c ++ rest) = some c :: characters none rest := by
  have hchar : ∀ n, n = c.toNat → Char.ofNat n = c := fun n hn => hn ▸ Char.ofNat_toNat c
  have hvalid := toNat_valid c
  by_cases hone : c.toNat ≤ 0x7F
  · have hfirst : first? c.toNat = some (.inl (Char.ofNat c.toNat)) := if_pos (by omega)
    rw [encode_one hone, List.singleton_append, characters]
    simp only [hfirst, hchar c.toNat rfl]
  by_cases htwo : c.toNat ≤ 0x7FF
  · have hfirst := first?_two ⟨Nat.lt_of_not_le hone, htwo⟩
    rw [encode_two ⟨by omega, htwo⟩, List.cons_append, List.singleton_append,
      characters_first hfirst, characters_last (by dsimp only; omega) rfl,
      hchar _ (by dsimp only; omega)]
  by_cases hthree : c.toNat ≤ 0xFFFF
  · obtain ⟨least, most, hfirst, hsecond⟩ := first?_three ⟨Nat.lt_of_not_le htwo, hthree⟩ (by omega)
    rw [encode_three ⟨by omega, hthree⟩, List.cons_append, List.cons_append, List.singleton_append,
      characters_first hfirst, characters_next hsecond (by simp),
      characters_last (by dsimp only; omega) rfl, hchar _ (by dsimp only; omega)]
  · obtain ⟨least, most, hfirst, hsecond⟩ := first?_four (n := c.toNat) (by omega)
    rw [encode_four (by omega), List.cons_append, List.cons_append, List.cons_append,
      List.singleton_append, characters_first hfirst, characters_next hsecond (by simp),
      characters_next (by dsimp only; omega) (by simp),
      characters_last (by dsimp only; omega) rfl, hchar _ (by dsimp only; omega)]

/-- **A text reads back from its bytes.** -/
theorem read?_write (s : String) : read? (write s) = some s := by
  have hcharacters : ∀ cs : List Char, characters none (cs.flatMap encode) = cs.map some := by
    intro cs
    induction cs with
    | nil => rfl
    | cons c rest ih => rw [List.flatMap_cons, characters_encode, ih, List.map_cons]
  have hall : ∀ cs : List Char, (cs.map some).mapM id = some cs := by
    intro cs
    induction cs with
    | nil => rfl
    | cons c rest ih => simp [ih]
  have hwrite := write_ofList s.toList
  rw [String.ofList_toList] at hwrite
  rw [read?, hwrite, hcharacters, hall, Option.map_some, String.ofList_toList]

end Automation.Text.Utf8
