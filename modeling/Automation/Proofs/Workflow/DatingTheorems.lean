/-
Automation.Proofs.Workflow.DatingTheorems — what the time of reading does.

A workflow that leaves out its dates gets those of the moment at which it is
read. That is all the moment does: whatever the outline, two readings either
find the same fault or read workflows that differ in their dates only
(`Workflow.decode_redated`). Two readers with different defaults are compared
along the fields of the record (`Reader.Alike`), as its values are in
`Reader.Gives`.
-/
import Automation.Proofs.Decode.ReaderTheorems
import Automation.Workflow.Decode
import Automation.Workflow.Validation

namespace Automation

namespace Decode

open Automation.Json

/-! ## Two results -/

/-- The same fault, or two values that are related. -/
inductive Agree {ε α β : Type} (R : α → β → Prop) : Except ε α → Except ε β → Prop
  | error (e : ε) : Agree R (.error e) (.error e)
  | ok {a : α} {b : β} (h : R a b) : Agree R (.ok a) (.ok b)

section

variable {ε α β γ δ : Type} {R : α → β → Prop} {S : γ → δ → Prop}

theorem agree_self {R : α → α → Prop} (h : ∀ a, R a a) (x : Except ε α) : Agree R x x := by
  cases x with
  | error e => exact .error e
  | ok a => exact .ok (h a)

theorem agree_refuse (expected : Expected) (o : Outline) :
    Agree R (refuse expected o) (refuse expected o) := by
  unfold refuse
  split <;> exact .error _

theorem Agree.bind {x : Except ε α} {y : Except ε β} {f : α → Except ε γ} {g : β → Except ε δ}
    (h : Agree R x y) (hnext : ∀ a b, R a b → Agree S (f a) (g b)) :
    Agree S (x >>= f) (y >>= g) := by
  cases h with
  | error e => exact .error e
  | ok h => exact hnext _ _ h

theorem Agree.map {x : Except ε α} {y : Except ε β} {f : α → γ} {g : β → δ} (h : Agree R x y)
    (hvalue : ∀ a b, R a b → S (f a) (g b)) : Agree S (x.map f) (y.map g) := by
  cases h with
  | error e => exact .error e
  | ok h => exact .ok (hvalue _ _ h)

end

/-! ## Two readers -/

/-- Two fields may be left out alike, and what stands for them is related. -/
inductive Absence.Rel {α β : Type} (R : α → β → Prop) : Absence α → Absence β → Prop
  | refuse : Rel R .refuse .refuse
  | skip {a : α} {b : β} (h : R a b) : Rel R (.skip a) (.skip b)
  | fill {a : α} {b : β} (h : R a b) : Rel R (.fill a) (.fill b)

namespace Reader

variable {α β γ δ ε ζ : Type}

/-- Two readers go the same way: what they have been given is related at every
moment, and so is what they make of it. -/
structure Follows (r : Reader α) (s : Reader β) (G : r.Given → s.Given → Prop)
    (R : α → β → Prop) : Prop where
  start : G r.start s.start
  size : r.size = s.size
  take : ∀ g g' key o, G g g' → Option.Rel (Agree G) (r.take g key o) (s.take g' key o)
  finish : ∀ g g', G g g' → Agree R (r.finish g) (s.finish g')
  ofList : ∀ tooFew place items closed, Agree (fun x y => R x.1 y.1 ∧ x.2 = y.2)
    (r.ofList tooFew place items closed) (s.ofList tooFew place items closed)

/-- Two readers make related things of the same fields. -/
def Alike (R : α → β → Prop) (r : Reader α) (s : Reader β) : Prop :=
  ∃ G, r.Follows s G R

theorem alike_ofValue {R : α → β → Prop} {a : α} {b : β} (h : R a b) :
    Alike R (ofValue a) (ofValue b) :=
  ⟨fun _ _ => True, trivial, rfl, fun _ _ _ _ _ => .none, fun _ _ _ => .ok h,
    fun _ _ _ _ => .ok ⟨h, rfl⟩⟩

theorem alike_self (r : Reader α) : Alike Eq r r := by
  refine ⟨Eq, rfl, rfl, ?_, ?_, fun _ _ _ _ => agree_self (fun _ => ⟨rfl, rfl⟩) _⟩
  · rintro g - key o rfl
    cases r.take g key o with
    | none => exact .none
    | some taken => exact .some (agree_self (fun _ => rfl) taken)
  · rintro g - rfl
    exact agree_self (fun _ => rfl) _

theorem follows_ofField {R : α → β → Prop} {f : Field α} {g : Field β} (hname : f.name = g.name)
    (haliases : f.aliases = g.aliases) (hdecode : ∀ o, Agree R (f.decode o) (g.decode o))
    (habsence : f.absence.Rel R g.absence) :
    (ofField f).Follows (ofField g) (Option.Rel R) R where
  start := .none
  size := rfl
  take := by
    intro given given' key o hgiven
    have hnamed : f.isNamed key = g.isNamed key := by simp only [Field.isNamed, hname, haliases]
    dsimp only [ofField]
    rw [hnamed, hname]
    split
    · cases hgiven with
      | none => exact .some ((hdecode o).map fun _ _ h => .some h)
      | some _ => exact .some (.error _)
    · exact .none
  finish := by
    intro given given' hgiven
    dsimp only [ofField]
    generalize f.absence = absence, g.absence = absence' at habsence ⊢
    rw [hname]
    cases hgiven with
    | some h => exact .ok h
    | none =>
      cases habsence with
      | refuse => exact .error _
      | skip h => exact .ok h
      | fill h => exact .ok h
  ofList := by
    intro tooFew place items closed
    dsimp only [ofField]
    generalize f.absence = absence, g.absence = absence' at habsence ⊢
    cases items with
    | cons o rest => exact (hdecode o).map fun _ _ h => ⟨h, rfl⟩
    | nil =>
      cases closed with
      | false => exact .error _
      | true =>
        cases habsence with
        | refuse => exact .error _
        | skip _ => exact .error _
        | fill h => exact .ok ⟨h, rfl⟩

theorem alike_ofField {R : α → β → Prop} {f : Field α} {g : Field β} (hname : f.name = g.name)
    (haliases : f.aliases = g.aliases) (hdecode : ∀ o, Agree R (f.decode o) (g.decode o))
    (habsence : f.absence.Rel R g.absence) : Alike R (ofField f) (ofField g) :=
  ⟨_, follows_ofField hname haliases hdecode habsence⟩

theorem Follows.both {P : α → β → Prop} {Q : γ → δ → Prop} {R : ε → ζ → Prop}
    {combine : α → γ → ε} {combine' : β → δ → ζ} {r : Reader α} {r' : Reader β} {s : Reader γ}
    {s' : Reader δ} {Left : r.Given → r'.Given → Prop} {Right : s.Given → s'.Given → Prop}
    (hr : r.Follows r' Left P) (hs : s.Follows s' Right Q)
    (h : ∀ a b c d, P a b → Q c d → R (combine a c) (combine' b d)) :
    (Reader.both combine r s).Follows (Reader.both combine' r' s')
      (fun g g' => Left g.1 g'.1 ∧ Right g.2 g'.2) R where
  start := ⟨hr.start, hs.start⟩
  size := congr (congrArg (· + ·) hr.size) hs.size
  take := by
    intro g g' key o hgiven
    have htake := hr.take g.1 g'.1 key o hgiven.1
    dsimp only [Reader.both]
    generalize r.take g.1 key o = taken, r'.take g'.1 key o = taken' at htake ⊢
    cases htake with
    | some htaken => exact .some (htaken.map fun _ _ h => ⟨h, hgiven.2⟩)
    | none =>
      have htake := hs.take g.2 g'.2 key o hgiven.2
      generalize s.take g.2 key o = taken, s'.take g'.2 key o = taken' at htake ⊢
      cases htake with
      | some htaken => exact .some (htaken.map fun _ _ h => ⟨hgiven.1, h⟩)
      | none => exact .none
  finish := by
    intro g g' hgiven
    refine (hr.finish g.1 g'.1 hgiven.1).bind fun a b ha => ?_
    exact (hs.finish g.2 g'.2 hgiven.2).bind fun c d hc => .ok (h a b c d ha hc)
  ofList := by
    intro tooFew place items closed
    refine (hr.ofList tooFew place items closed).bind fun x y hx => ?_
    obtain ⟨a, items⟩ := x
    obtain ⟨b, items'⟩ := y
    obtain ⟨ha, rfl⟩ := hx
    dsimp only
    rw [hr.size]
    refine (hs.ofList tooFew _ items closed).bind fun x y hx => ?_
    exact .ok ⟨h a b x.1 y.1 ha hx.1, hx.2⟩

theorem alike_both {P : α → β → Prop} {Q : γ → δ → Prop} {R : ε → ζ → Prop}
    {combine : α → γ → ε} {combine' : β → δ → ζ} {r : Reader α} {r' : Reader β} {s : Reader γ}
    {s' : Reader δ} (hr : Alike P r r') (hs : Alike Q s s')
    (h : ∀ a b c d, P a b → Q c d → R (combine a c) (combine' b d)) :
    Alike R (both combine r s) (both combine' r' s') := by
  obtain ⟨_, hleft⟩ := hr
  obtain ⟨_, hright⟩ := hs
  exact ⟨_, hleft.both hright h⟩

/-- A field that both read alike. -/
theorem Alike.seq {R : β → δ → Prop} {rf : Reader (α → β)} {rg : Reader (α → δ)}
    (h : Alike (fun f g => ∀ a, R (f a) (g a)) rf rg) (r : Reader α) :
    Alike R (rf <*> r) (rg <*> r) :=
  alike_both h (alike_self r) fun _ _ c _ hf hc => hc ▸ hf c

/-- A field that stands for different things when it is left out. -/
theorem Alike.seq_optional {R : β → δ → Prop} {rf : Reader (α → β)} {rg : Reader (α → δ)}
    (h : Alike (fun f g => ∀ a b, R (f a) (g b)) rf rg) (name : String) (decode : Decoder α)
    (a b : α) : Alike R (rf <*> optional name decode a) (rg <*> optional name decode b) :=
  alike_both h
    (alike_ofField (R := fun _ _ => True) rfl rfl (fun _ => agree_self (fun _ => trivial) _)
      (.fill trivial))
    fun _ _ c d hf _ => hf c d

/-- A record of one field. -/
theorem alike_required {R : α → β → Prop} {d : Decoder α} {d' : Decoder β} (name : String)
    (h : ∀ o, Agree R (d o) (d' o)) : Alike R (required name d) (required name d') :=
  alike_ofField rfl rfl h .refuse

theorem Follows.takeAll {r : Reader α} {s : Reader β} {G : r.Given → s.Given → Prop}
    {R : α → β → Prop} (h : r.Follows s G R) : ∀ (fields : List (Outline × Outline)) g g',
      G g g' → Agree G (r.takeAll g fields) (s.takeAll g' fields)
  | [], _, _, hgiven => .ok hgiven
  | (k, o) :: rest, g, g', hgiven => by
    refine (agree_self (R := Eq) (fun _ => rfl) (key k)).bind ?_
    rintro name - rfl
    have htake := h.take g g' name o hgiven
    generalize r.take g name o = taken, s.take g' name o = taken' at htake ⊢
    cases htake with
    | some htaken => exact htaken.bind fun g g' hgiven => h.takeAll rest g g' hgiven
    | none =>
      dsimp only
      split
      · exact h.takeAll rest g g' hgiven
      · exact .error _

/-- **What two such readers make of a record**, in either form. -/
theorem Alike.decode {R : α → β → Prop} {r : Reader α} {s : Reader β} (h : Alike R r s)
    (name : String) (o : Outline) : Agree R (r.decode name o) (s.decode name o) := by
  obtain ⟨G, h⟩ := h
  cases o with
  | object fields closed =>
    refine (h.takeAll fields _ _ h.start).bind fun g g' hgiven => ?_
    split
    · exact h.finish g g' hgiven
    · exact .error _
  | array items closed =>
    unfold Reader.decode
    rw [h.size]
    refine (h.ofList _ 0 items closed).bind fun x y hx => ?_
    obtain ⟨a, rest⟩ := x
    obtain ⟨b, rest'⟩ := y
    obtain ⟨ha, rfl⟩ := hx
    dsimp only
    split
    · split
      · exact .ok ha
      · exact .error _
    · exact .error _
  | _ =>
    simp only [Reader.decode]
    exact agree_refuse _ _

end Reader

end Decode

/-! ## Workflows -/

open Automation.Decode
open Automation.Time (Timestamp)

/-- The same workflow, but for its dates. -/
def Workflow.Redated (w v : Workflow) : Prop :=
  v = { w with createdAt := v.createdAt, updatedAt := v.updatedAt }

theorem Workflow.Redated.id {w v : Workflow} (h : w.Redated v) : v.id = w.id := by
  unfold Redated at h
  rw [h]

/-- The dates do not matter for the validity. -/
theorem Workflow.Redated.isValid {w v : Workflow} (h : w.Redated v) : v.isValid = w.isValid := by
  unfold Redated at h
  rw [h]
  rfl

/-- **A workflow reads the same at any time**, but for its dates. -/
theorem Workflow.decode_redated (now now' : Timestamp) (o : Json.Outline) :
    Agree Workflow.Redated (Workflow.decode now o) (Workflow.decode now' o) := by
  refine Reader.Alike.decode ?_ _ o
  -- The dates are the last two fields; in front of them the readers are the same.
  refine Reader.Alike.seq_optional (Reader.Alike.seq_optional ?_ _ _ _ _) _ _ _ _
  repeat' refine Reader.Alike.seq ?_ _
  refine Reader.alike_ofValue ?_
  intros
  rfl

end Automation
