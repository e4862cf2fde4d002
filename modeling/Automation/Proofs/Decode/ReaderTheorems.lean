/-
Automation.Proofs.Decode.ReaderTheorems — what decoders read, and what they
read back.

Two things are said of a decoder. `Yields` says what is true of every value
that it reads, from whatever outline. `Reader.Gives` says the same of the
reader of a record, through what it has been given so far; it is put
together along the fields of the record (`Gives.map`, `Gives.seq`), in the
way the reader is.

A decoder reads back what is written when the outline of the written value
gives the value again. `Reader.ReadsBack` says so of a record that is written
as an object: the reader takes the fields of its own names and lets the
others pass, so two readers do not disturb each other as long as no name is
used twice. It is put together along the fields as well.
-/
import Automation.Decode.Record
import Automation.Proofs.Json.OutlineTheorems

namespace Automation.Decode

open Automation.Json

/-! ## Results -/

theorem bind_eq_ok {ε α β : Type} {x : Except ε α} {f : α → Except ε β} {b : β} :
    x >>= f = .ok b ↔ ∃ a, x = .ok a ∧ f a = .ok b := by
  cases x <;> simp [bind, Except.bind]

theorem map_eq_ok {ε α β : Type} {x : Except ε α} {f : α → β} {b : β} :
    x.map f = .ok b ↔ ∃ a, x = .ok a ∧ f a = b := by
  cases x <;> simp [Except.map]

theorem pure_eq_ok {ε α : Type} {a b : α} : (pure a : Except ε α) = .ok b ↔ a = b := by
  simp [pure, Except.pure]

theorem throw_ne_ok {ε α : Type} {e : ε} {a : α} : (throw e : Except ε α) ≠ .ok a := by
  simp [throw, throwThe, MonadExceptOf.throw]

/-! ## What is read -/

/-- Whatever the decoder reads is such a value. -/
def Yields {α : Type} (decode : Decoder α) (P : α → Prop) : Prop :=
  ∀ ⦃o a⦄, decode o = .ok a → P a

section

variable {α : Type} {decode : Decoder α} {P : α → Prop}

theorem yields_true (decode : Decoder α) : Yields decode fun _ => True :=
  fun _ _ _ => trivial

theorem refuse_ne_ok (expected : Expected) (o : Outline) (a : α) : refuse expected o ≠ .ok a := by
  unfold refuse
  split <;> simp

theorem yields_any : Yields any Value.Ordered := by
  intro o v h
  unfold any at h
  split at h
  · next hv =>
    cases h
    exact Outline.ordered_of_value? hv
  · cases h

theorem yields_fields : Yields fields fun found => (Value.object found).Ordered := by
  intro o found h
  unfold fields at h
  split at h
  · split at h
    · next hv =>
      cases h
      exact Outline.ordered_of_value? hv
    · cases h
  · exact absurd h (refuse_ne_ok _ _ _)

theorem yields_natural (range : IntegerRange) (hleast : 0 ≤ range.least) :
    Yields (natural range) fun n => range.holds n := by
  intro o n h
  obtain ⟨i, hi, rfl⟩ := map_eq_ok.mp h
  have hholds : range.holds i := by
    unfold integer at hi
    split at hi
    · split at hi
      · next hholds =>
        cases hi
        exact hholds
      · cases hi
    · exact absurd hi (refuse_ne_ok _ _ _)
  have hnonneg : 0 ≤ i := by
    simp only [IntegerRange.holds, Bool.and_eq_true, decide_eq_true_eq] at hholds
    omega
  rwa [Int.toNat_of_nonneg hnonneg]

theorem yields_nullable (h : Yields decode P) : Yields (nullable decode) fun x => ∀ a ∈ x, P a := by
  intro o x hx
  unfold nullable at hx
  split at hx
  · cases hx
    simp
  · obtain ⟨a, ha, rfl⟩ := map_eq_ok.mp hx
    simpa using h ha

theorem forall_mem_of_items (h : Yields decode P) {os : List Outline} {as : List α}
    (has : items decode os = .ok as) : ∀ a ∈ as, P a := by
  induction os generalizing as with
  | nil =>
    cases has
    simp
  | cons o rest ih =>
    obtain ⟨a, ha, has⟩ := bind_eq_ok.mp has
    obtain ⟨more, hmore, has⟩ := bind_eq_ok.mp has
    obtain rfl := pure_eq_ok.mp has
    exact List.forall_mem_cons.mpr ⟨h ha, ih hmore⟩

theorem yields_list (h : Yields decode P) : Yields (list decode) fun as => ∀ a ∈ as, P a := by
  intro o as has
  unfold list at has
  split at has
  · obtain ⟨as', hitems, has⟩ := bind_eq_ok.mp has
    split at has
    · obtain rfl := pure_eq_ok.mp has
      exact forall_mem_of_items h hitems
    · exact absurd has throw_ne_ok
  · exact absurd has (refuse_ne_ok _ _ _)

end

namespace Reader

variable {α β γ : Type}

/-- What has been given is sound at every moment, and what is made of sound
things is such a value; so is what is read from a list. -/
structure Keeps (r : Reader α) (Sound : r.Given → Prop) (P : α → Prop) : Prop where
  start : Sound r.start
  take : ∀ ⦃given key o given'⦄, Sound given → r.take given key o = some (.ok given') →
    Sound given'
  finish : ∀ ⦃given a⦄, Sound given → r.finish given = .ok a → P a
  ofList : ∀ ⦃tooFew place items closed a rest⦄,
    r.ofList tooFew place items closed = .ok (a, rest) → P a

/-- Whatever the reader makes of the fields is such a value. -/
def Gives (r : Reader α) (P : α → Prop) : Prop :=
  ∃ Sound : r.Given → Prop, r.Keeps Sound P

theorem gives_ofValue {a : α} {P : α → Prop} (h : P a) : (ofValue a).Gives P := by
  refine ⟨fun _ => True, trivial, ?_, ?_, ?_⟩
  · intro given key o given' _ htake
    cases htake
  · intro given a' _ hfinish
    cases hfinish
    exact h
  · intro tooFew place items closed a' rest hlist
    cases hlist
    exact h

theorem gives_ofField {field : Field α} {P : α → Prop} (hdecode : Yields field.decode P)
    (habsence : ∀ a, field.absence = .skip a ∨ field.absence = .fill a → P a) :
    (ofField field).Gives P := by
  refine ⟨fun given : Option α => ∀ a ∈ given, P a, (fun _ h => by cases h), ?_, ?_, ?_⟩
  · intro given key o given' _ htake
    dsimp only [ofField] at htake
    split at htake
    · split at htake
      · cases htake
      · obtain ⟨a, ha, rfl⟩ := map_eq_ok.mp (Option.some.inj htake)
        simpa using hdecode ha
    · cases htake
  · intro given a hgiven hfinish
    dsimp only [ofField] at hfinish
    split at hfinish
    · cases hfinish
      exact hgiven _ rfl
    · cases hfinish
    · next h =>
      cases hfinish
      exact habsence _ (.inl h)
    · next h =>
      cases hfinish
      exact habsence _ (.inr h)
  · intro tooFew place items closed a rest hlist
    dsimp only [ofField] at hlist
    split at hlist
    · obtain ⟨b, hb, heq⟩ := map_eq_ok.mp hlist
      cases heq
      exact hdecode hb
    split at hlist
    · split at hlist
      · next h =>
        cases hlist
        exact habsence _ (.inr h)
      · cases hlist
    · cases hlist

theorem gives_both {combine : α → β → γ} {r : Reader α} {s : Reader β} {P : α → Prop}
    {Q : β → Prop} {R : γ → Prop} (hr : r.Gives P) (hs : s.Gives Q)
    (h : ∀ a b, P a → Q b → R (combine a b)) : (both combine r s).Gives R := by
  obtain ⟨Left, hleft⟩ := hr
  obtain ⟨Right, hright⟩ := hs
  refine ⟨fun given => Left given.1 ∧ Right given.2, ⟨hleft.start, hright.start⟩, ?_, ?_, ?_⟩
  · intro given key o given' hgiven htaken
    dsimp only [both] at htaken
    split at htaken
    · next taken ht =>
      obtain ⟨g, rfl, rfl⟩ := map_eq_ok.mp (Option.some.inj htaken)
      exact ⟨hleft.take hgiven.1 ht, hgiven.2⟩
    · obtain ⟨taken, ht, hmap⟩ := Option.map_eq_some_iff.mp htaken
      obtain ⟨g, rfl, rfl⟩ := map_eq_ok.mp hmap
      exact ⟨hgiven.1, hright.take hgiven.2 ht⟩
  · intro given c hgiven hdone
    obtain ⟨a, ha, hdone⟩ := bind_eq_ok.mp hdone
    obtain ⟨b, hb, hdone⟩ := bind_eq_ok.mp hdone
    obtain rfl := pure_eq_ok.mp hdone
    exact h a b (hleft.finish hgiven.1 ha) (hright.finish hgiven.2 hb)
  · intro tooFew place items closed c rest hdone
    obtain ⟨⟨a, more⟩, ha, hdone⟩ := bind_eq_ok.mp hdone
    obtain ⟨⟨b, last⟩, hb, hdone⟩ := bind_eq_ok.mp hdone
    cases pure_eq_ok.mp hdone
    exact h a b (hleft.ofList ha) (hright.ofList hb)

theorem Gives.map {r : Reader α} {f : α → β} {P : α → Prop} {Q : β → Prop}
    (h : ∀ a, P a → Q (f a)) (hr : r.Gives P) : (f <$> r).Gives Q :=
  gives_both (gives_ofValue (P := (· = f)) rfl) hr fun _ a hf ha => hf ▸ h a ha

theorem Gives.seq {rf : Reader (α → β)} {r : Reader α} {P : α → Prop} {Q : β → Prop}
    (hf : rf.Gives fun f => ∀ a, P a → Q (f a)) (hr : r.Gives P) : (rf <*> r).Gives Q :=
  gives_both hf hr fun _ a hf ha => hf a ha

theorem gives_required {name : String} {decode : Decoder α} {P : α → Prop} (h : Yields decode P) :
    (required name decode).Gives P :=
  gives_ofField h (by simp)

theorem gives_optional {name : String} {decode : Decoder α} {value : α} {P : α → Prop}
    (h : Yields decode P) (hvalue : P value) : (optional name decode value).Gives P :=
  gives_ofField h (by simpa using hvalue)

theorem gives_perhaps {name : String} {decode : Decoder α} {P : α → Prop} (h : Yields decode P) :
    (perhaps name decode).Gives fun x => ∀ a ∈ x, P a :=
  gives_ofField (yields_nullable h) (by simp)

/-- A whole object keeps what has been given sound. -/
theorem Keeps.takeAll {r : Reader α} {Sound : r.Given → Prop} {P : α → Prop}
    (h : r.Keeps Sound P) {fields : List (Outline × Outline)} :
    ∀ {given given' : r.Given}, Sound given → r.takeAll given fields = .ok given' →
      Sound given' := by
  induction fields with
  | nil =>
    intro given given' hgiven hall
    cases hall
    exact hgiven
  | cons field rest ih =>
    intro given given' hgiven hall
    obtain ⟨name, _, hall⟩ := bind_eq_ok.mp hall
    split at hall
    · next taken htaken =>
      obtain ⟨g, rfl, hall⟩ := bind_eq_ok.mp hall
      exact ih (h.take hgiven htaken) hall
    split at hall
    · exact ih hgiven hall
    · cases hall

/-- **What a record is read into**, from either form. -/
theorem Gives.decode {r : Reader α} {P : α → Prop} (h : r.Gives P) (name : String) :
    Yields (r.decode name) P := by
  obtain ⟨Sound, h⟩ := h
  intro o a ha
  unfold Reader.decode at ha
  split at ha
  · obtain ⟨given, hgiven, ha⟩ := bind_eq_ok.mp ha
    split at ha
    · exact h.finish (h.takeAll h.start hgiven) ha
    · exact absurd ha throw_ne_ok
  · obtain ⟨⟨b, rest⟩, hb, ha⟩ := bind_eq_ok.mp ha
    dsimp only at ha
    split at ha
    · split at ha
      · obtain rfl := pure_eq_ok.mp ha
        exact h.ofList hb
      · exact absurd ha throw_ne_ok
    · exact absurd ha throw_ne_ok
  · exact absurd ha (refuse_ne_ok _ _ _)

end Reader

/-! ## What is read back -/

section

variable {α : Type} {decode : Decoder α}

theorem any_ofValue {v : Value} (h : v.Ordered) : any (.ofValue v) = .ok v := by
  rw [any, Outline.value?_ofValue h]

theorem fields_ofValue {found : Fields} (h : (Value.object found).Ordered) :
    fields (.ofValue (.object found)) = .ok found := by
  have hvalue := Outline.value?_ofValue h
  rw [Outline.ofValue] at hvalue ⊢
  rw [fields, hvalue]

theorem text_ofValue (s : String) : text (.ofValue (.string s)) = .ok s := rfl

theorem boolean_ofValue (b : Bool) : boolean (.ofValue (.bool b)) = .ok b := rfl

theorem double_ofValue (x : Float) : double (.ofValue (.number (.real x))) = .ok x := rfl

theorem natural_ofValue {range : IntegerRange} {n : Nat} (h : range.holds n) :
    natural range (.ofValue (.ofNat n)) = .ok n := by
  rw [natural, Value.ofNat, Outline.ofValue, integer, if_pos h]
  rfl

/-- Nothing, or a value of a decoder that does not take `null` for one. -/
theorem nullable_ofValue {toJson : α → Value} (hnull : ∀ a, decode .null ≠ .ok a) {x : Option α}
    (h : ∀ a ∈ x, decode (.ofValue (toJson a)) = .ok a) :
    nullable decode (.ofValue (.ofOption toJson x)) = .ok x := by
  cases x with
  | none => rfl
  | some a =>
    have ha := h a rfl
    unfold nullable
    split
    · next hv => exact absurd (hv ▸ ha) (hnull a)
    · rw [Value.ofOption, ha]
      rfl

theorem optionalText_ofValue (s : Option String) :
    nullable text (.ofValue (.ofOptionalText s)) = .ok s :=
  nullable_ofValue (fun _ h => by cases h) fun s _ => text_ofValue s

theorem items_ofItems {toJson : α → Value} {as : List α}
    (h : ∀ a ∈ as, decode (.ofValue (toJson a)) = .ok a) :
    items decode (Outline.ofItems (as.map toJson)) = .ok as := by
  induction as with
  | nil => rfl
  | cons a rest ih =>
    obtain ⟨ha, hrest⟩ := List.forall_mem_cons.mp h
    exact bind_eq_ok.mpr ⟨a, ha, bind_eq_ok.mpr ⟨rest, ih hrest, rfl⟩⟩

theorem list_ofValue {toJson : α → Value} {as : List α}
    (h : ∀ a ∈ as, decode (.ofValue (toJson a)) = .ok a) :
    list decode (.ofValue (.array (as.map toJson))) = .ok as :=
  bind_eq_ok.mpr ⟨as, items_ofItems h, rfl⟩

end

namespace Reader

variable {α β γ : Type}

/-- The reader of these names reads the value back from what is written under
them: whichever fields of other names stand among these, and in whichever
order, it is made of what the object has under its own names. -/
structure ReadsBack (r : Reader α) (names : List String) (written : Fields) (a : α) : Prop where
  silent : ∀ given key o, key ∉ names → r.take given key o = none
  keys : (written.map (·.1)).Sublist names
  reads : names.Nodup → ∀ all : Fields, all.Sorted → written ⊆ all →
    (∀ f ∈ all, f.1 ∈ names → f ∈ written) →
    ∃ given, r.takeAll r.start (Outline.ofFields all) = .ok given ∧ r.finish given = .ok a

/-- One field of an object is taken in after the other. -/
theorem takeAll_append (r : Reader α) {front back : List (Outline × Outline)} :
    ∀ given, r.takeAll given (front ++ back) =
      (r.takeAll given front).bind fun given => r.takeAll given back := by
  induction front with
  | nil => exact fun _ => rfl
  | cons field rest ih =>
    intro given
    obtain ⟨k, o⟩ := field
    cases hkey : key k with
    | error e => simp [takeAll, hkey, Except.bind]
    | ok name =>
      cases htake : r.take given name o with
      | none => cases hwhole : o.isWhole <;> simp [takeAll, hkey, htake, hwhole, ih, Except.bind]
      | some taken => cases taken <;> simp [takeAll, hkey, htake, ih, Except.bind]

theorem takeAll_cons (r : Reader α) (given : r.Given) (f : String × Value) (rest : Fields) :
    r.takeAll given (Outline.ofFields (f :: rest)) =
      match r.take given f.1 (.ofValue f.2) with
      | some taken => taken.bind fun given => r.takeAll given (Outline.ofFields rest)
      | none => r.takeAll given (Outline.ofFields rest) := by
  rw [Outline.ofFields, takeAll]
  dsimp only [key, Outline.text?, Except.bind]
  cases r.take given f.1 (.ofValue f.2) with
  | some taken => rfl
  | none => exact if_pos (Outline.isWhole_ofValue f.2)

/-- Fields of other names pass. -/
theorem takeAll_of_silent {r : Reader α} (names : List String)
    (hsilent : ∀ given key o, key ∉ names → r.take given key o = none) {all : Fields}
    (h : ∀ f ∈ all, f.1 ∉ names) (given : r.Given) :
    r.takeAll given (Outline.ofFields all) = .ok given := by
  induction all with
  | nil => rfl
  | cons f rest ih =>
    obtain ⟨hf, hrest⟩ := List.forall_mem_cons.mp h
    rw [takeAll_cons, hsilent _ _ _ hf]
    exact ih hrest

theorem readsBack_ofValue (a : α) : (ofValue a).ReadsBack [] [] a where
  silent := fun _ _ _ _ => rfl
  keys := .slnil
  reads := fun _ _ _ _ _ => ⟨(), takeAll_of_silent [] (fun _ _ _ _ => rfl)
    (fun _ _ => List.not_mem_nil) _, rfl⟩

theorem readsBack_ofField {field : Field α} {v : Value} {a : α}
    (h : field.decode (.ofValue v) = .ok a) :
    (ofField field).ReadsBack (field.name :: field.aliases) [(field.name, v)] a := by
  have hsilent : ∀ given key o, key ∉ field.name :: field.aliases →
      (ofField field).take given key o = none := by
    intro given key o hkey
    obtain ⟨hname, halias⟩ := not_or.mp (mt List.mem_cons.mpr hkey)
    have hnamed : field.isNamed key = false := by simp [Field.isNamed, hname, halias]
    simp [ofField, hnamed]
  refine ⟨hsilent, (List.nil_sublist _).cons_cons _, ?_⟩
  intro _ all hsorted hwritten honly
  obtain ⟨before, after, rfl⟩ := List.append_of_mem (hwritten List.mem_cons_self)
  obtain ⟨hbefore, hafter, hlt⟩ := List.pairwise_append.mp hsorted
  -- A field of one of the names is this one, and in order a key stands once.
  have hfront : ∀ f ∈ before, f.1 ∉ field.name :: field.aliases := by
    intro f hf hnames
    have heq := List.mem_singleton.mp (honly f (List.mem_append_left _ hf) hnames)
    exact String.lt_irrefl _ (heq ▸ hlt f hf _ List.mem_cons_self)
  have hback : ∀ f ∈ after, f.1 ∉ field.name :: field.aliases := by
    intro f hf hnames
    have heq := List.mem_singleton.mp
      (honly f (List.mem_append_right _ (List.mem_cons_of_mem _ hf)) hnames)
    exact String.lt_irrefl _ (heq ▸ (List.pairwise_cons.mp hafter).1 f hf)
  have hnamed : field.isNamed field.name = true := by simp [Field.isNamed]
  refine ⟨some a, ?_, rfl⟩
  have hsplit : Outline.ofFields (before ++ (field.name, v) :: after) =
      Outline.ofFields before ++ Outline.ofFields ((field.name, v) :: after) := by
    simp [Outline.ofFields_eq_map]
  rw [hsplit, takeAll_append, takeAll_of_silent _ hsilent hfront, Except.bind, takeAll_cons]
  simp only [ofField, hnamed, if_true, h]
  exact takeAll_of_silent _ hsilent hback (some a)

/-- Two readers that share no name take in an object side by side. -/
theorem takeAll_both {combine : α → β → γ} {r : Reader α} {s : Reader β}
    {names others : List String}
    (hr : ∀ given key o, key ∉ names → r.take given key o = none)
    (hs : ∀ given key o, key ∉ others → s.take given key o = none)
    (hdisjoint : ∀ key ∈ names, key ∉ others) {all : Fields} :
    ∀ {given : r.Given} {given' : s.Given} {g : r.Given} {g' : s.Given},
      r.takeAll given (Outline.ofFields all) = .ok g →
      s.takeAll given' (Outline.ofFields all) = .ok g' →
      (both combine r s).takeAll (given, given') (Outline.ofFields all) = .ok (g, g') := by
  induction all with
  | nil =>
    intro given given' g g' h h'
    cases h
    cases h'
    rfl
  | cons f rest ih =>
    intro given given' g g' h h'
    rw [takeAll_cons] at h h'
    refine (takeAll_cons (both combine r s) (given, given') f rest).trans ?_
    by_cases hf : f.1 ∈ names
    · rw [hs _ _ _ (hdisjoint _ hf)] at h'
      cases htake : r.take given f.1 (.ofValue f.2) with
      | none =>
        rw [htake] at h
        simp only [both, htake, hs _ _ _ (hdisjoint _ hf)]
        exact ih h h'
      | some taken =>
        rw [htake] at h
        obtain ⟨next, rfl, h⟩ := bind_eq_ok.mp h
        simp only [both, htake]
        exact ih h h'
    · rw [hr _ _ _ hf] at h
      cases htake : s.take given' f.1 (.ofValue f.2) with
      | none =>
        rw [htake] at h'
        simp only [both, htake, hr _ _ _ hf]
        exact ih h h'
      | some taken =>
        rw [htake] at h'
        obtain ⟨next, rfl, h'⟩ := bind_eq_ok.mp h'
        simp only [both, htake, hr _ _ _ hf]
        exact ih h h'

theorem ReadsBack.both {combine : α → β → γ} {r : Reader α} {s : Reader β}
    {names others : List String} {written more : Fields} {a : α} {b : β}
    (hr : r.ReadsBack names written a) (hs : s.ReadsBack others more b) :
    (Reader.both combine r s).ReadsBack (names ++ others) (written ++ more) (combine a b) where
  silent := by
    intro given key o hkey
    obtain ⟨hnames, hothers⟩ := not_or.mp (mt List.mem_append.mpr hkey)
    simp [Reader.both, hr.silent _ _ _ hnames, hs.silent _ _ _ hothers]
  keys := by
    rw [List.map_append]
    exact hr.keys.append hs.keys
  reads := by
    intro hnodup all hsorted hwritten honly
    obtain ⟨hnames, hothers, hne⟩ := List.nodup_append.mp hnodup
    have hdisjoint : ∀ key ∈ names, key ∉ others := fun key h h' => hne key h key h' rfl
    obtain ⟨given, htake, hfinish⟩ := hr.reads hnames all hsorted
      (fun f hf => hwritten (List.mem_append_left _ hf)) (by
        intro f hf hname
        refine (List.mem_append.mp (honly f hf (List.mem_append_left _ hname))).resolve_right ?_
        exact fun hmore => hdisjoint _ hname (hs.keys.subset (List.mem_map_of_mem hmore)))
    obtain ⟨given', htake', hfinish'⟩ := hs.reads hothers all hsorted
      (fun f hf => hwritten (List.mem_append_right _ hf)) (by
        intro f hf hname
        refine (List.mem_append.mp (honly f hf (List.mem_append_right _ hname))).resolve_left ?_
        exact fun hmore => hdisjoint _ (hr.keys.subset (List.mem_map_of_mem hmore)) hname)
    refine ⟨(given, given'), takeAll_both hr.silent hs.silent hdisjoint htake htake', ?_⟩
    exact bind_eq_ok.mpr ⟨a, hfinish, bind_eq_ok.mpr ⟨b, hfinish', rfl⟩⟩

theorem ReadsBack.map {r : Reader α} {names : List String} {written : Fields} {a : α}
    (h : r.ReadsBack names written a) (f : α → β) : (f <$> r).ReadsBack names written (f a) :=
  (readsBack_ofValue f).both h

theorem ReadsBack.seq {rf : Reader (α → β)} {r : Reader α} {names others : List String}
    {written more : Fields} {f : α → β} {a : α} (hf : rf.ReadsBack names written f)
    (h : r.ReadsBack others more a) :
    (rf <*> r).ReadsBack (names ++ others) (written ++ more) (f a) :=
  hf.both h

/-- **A record reads back from the object of its fields**, if no name is used
twice. -/
theorem ReadsBack.decode {r : Reader α} {names : List String} {written : Fields} {a : α}
    (h : r.ReadsBack names written a) (hnames : names.Nodup) (name : String) :
    r.decode name (.ofValue (.ofFields written)) = .ok a := by
  obtain ⟨given, htake, hfinish⟩ := h.reads hnames (Fields.ofList written)
    (Fields.ofList_sorted written)
    (fun _ hf => Fields.mem_ofList_of_nodup (hnames.sublist h.keys) hf)
    (fun _ hf _ => Fields.mem_ofList hf)
  exact bind_eq_ok.mpr ⟨given, htake, hfinish⟩

end Reader

end Automation.Decode
