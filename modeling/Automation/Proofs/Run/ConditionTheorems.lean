/-
Automation.Proofs.Run.ConditionTheorems — conditions look at all clauses.

Which clause of a condition comes first does not matter, for none of them is
passed over: neither an outcome nor an error puts an early end to it. So a
condition fails exactly if a clause of it does (`satisfies_fails_iff`). That
depends on the paths in the clause alone and not on the context: its field, and
what the texts of its value ask for (`Clause.Strays`). Else the condition joins
the outcomes of all its clauses (`satisfies_eq_ok_iff`). Two conditions that
have the same clauses, in any order and however often, come to the same
(`satisfies_concur`).
-/
import Automation.Proofs.Run.InterpolationTheorems
import Automation.Run.Condition

namespace Automation

open Automation.Json (Value)

/-! ## Two results -/

/-- Both fail, or both give values that are related. -/
inductive Concur {ε ε' α β : Type} (R : α → β → Prop) : Except ε α → Except ε' β → Prop
  | error (e : ε) (e' : ε') : Concur R (.error e) (.error e')
  | ok {a : α} {b : β} (h : R a b) : Concur R (.ok a) (.ok b)

namespace Concur

variable {ε ε' ε₁ ε₂ α β γ δ : Type} {R : α → β → Prop} {S : γ → δ → Prop} {x : Except ε α}
  {y : Except ε' β}

theorem bind {f : α → Except ε γ} {g : β → Except ε' δ} (h : Concur R x y)
    (hnext : ∀ a b, R a b → Concur S (f a) (g b)) : Concur S (x >>= f) (y >>= g) := by
  cases h with
  | error e e' => exact .error e e'
  | ok h => exact hnext _ _ h

theorem map {f : α → γ} {g : β → δ} (h : Concur R x y) (hvalue : ∀ a b, R a b → S (f a) (g b)) :
    Concur S (x.map f) (y.map g) := by
  cases h with
  | error e e' => exact .error e e'
  | ok h => exact .ok (hvalue _ _ h)

/-- Errors may be put into other words. -/
theorem mapError (h : Concur R x y) (f : ε → ε₁) (g : ε' → ε₂) :
    Concur R (x.mapError f) (y.mapError g) := by
  cases h with
  | error e e' => exact .error _ _
  | ok h => exact .ok h

theorem self {R : α → α → Prop} (h : ∀ a, R a a) (x : Except ε α) : Concur R x x := by
  cases x with
  | error e => exact .error e e
  | ok a => exact .ok (h a)

theorem trans {z : Except ε₁ γ} {S : β → γ → Prop} {T : α → γ → Prop} (h : Concur R x y)
    (h' : Concur S y z) (hvalue : ∀ a b c, R a b → S b c → T a c) : Concur T x z := by
  cases h with
  | error e e' =>
    cases h' with
    | error _ e'' => exact .error e e''
  | ok h =>
    cases h' with
    | ok h' => exact .ok (hvalue _ _ _ h h')

/-- What is the case of the values that two results give. -/
theorem of_ok (hok : ∀ a, x = .ok a → ∃ b, y = .ok b ∧ R a b)
    (herror : (∃ e, x = .error e) → ∃ e, y = .error e) : Concur R x y := by
  cases x with
  | error e =>
    obtain ⟨e', rfl⟩ := herror ⟨e, rfl⟩
    exact .error e e'
  | ok a =>
    obtain ⟨b, rfl, h⟩ := hok a rfl
    exact .ok h

end Concur

/-- A result is a value or an error. -/
theorem not_exists_error_iff {ε α : Type} {x : Except ε α} :
    (¬ ∃ e, x = .error e) ↔ ∃ a, x = .ok a := by
  cases x <;> simp

/-! ## Paths that lead nowhere -/

/-- The path begins at no root. -/
def Path.Strays (path : List Char) : Prop :=
  String.ofList ((Text.trim path).takeWhile (· != '.')) ∉
    ["variables", "tasks", "user", "environment"]

theorem Path.isSome_unknownRoot? {path : List Char} :
    (unknownRoot? path).isSome = true ↔ Strays path := by
  unfold unknownRoot? Strays
  dsimp only
  split
  · next hroot => exact iff_of_false Bool.false_ne_true (not_not_intro hroot)
  · next hroot => exact iff_of_true rfl hroot

namespace Template

/-- The text asks for the value at a path: it is one placeholder, and the path is
all that stands in it, or else it has a placeholder with that path among its
pieces. -/
inductive Asks (s path : List Char) : Prop where
  | whole (h : Whole s path) : Asks s path
  | pieced {ps : List Piece} (h : ∀ path, ¬ Whole s path) (hr : Reads s ps)
      (hmem : .placeholder path ∈ ps) : Asks s path

/-- The paths that a text asks for are those that are found in it. -/
theorem mem_asks_iff {s path : List Char} : path ∈ asks s ↔ Asks s path := by
  have hplaceholder : ∀ {ps : List Piece},
      path ∈ ps.filterMap Piece.path? ↔ .placeholder path ∈ ps := by
    intro ps
    rw [List.mem_filterMap]
    constructor
    · rintro ⟨_ | p, hmem, hpath⟩
      · cases hpath
      · obtain rfl := Option.some.inj hpath
        exact hmem
    · exact fun hmem => ⟨_, hmem, rfl⟩
  constructor
  · intro hmem
    by_cases hwhole : ∃ p, Whole s p
    · obtain ⟨p, h⟩ := hwhole
      rw [asks_of_whole h, List.mem_singleton] at hmem
      exact .whole (hmem ▸ h)
    · have hnot := not_exists.mp hwhole
      have hreads : Reads s (pieces s) := reads_iff.2 rfl
      rw [asks_of_reads hnot hreads] at hmem
      exact .pieced hnot hreads (hplaceholder.mp hmem)
  · rintro (h | ⟨hnot, hreads, hmem⟩)
    · rw [asks_of_whole h]
      exact List.mem_singleton.mpr rfl
    · rw [asks_of_reads hnot hreads]
      exact hplaceholder.mpr hmem

end Template

/-- A path in the clause begins at no root: the path of its field, or one that
a text in its value asks for. -/
def Clause.Strays (clause : Clause) : Prop :=
  Path.Strays clause.field.toList ∨
    ∃ text ∈ clause.value.texts, ∃ path, Template.Asks text.toList path ∧ Path.Strays path

/-! ## One clause -/

namespace Context

variable {c : Context} {clause : Clause} {clauses : List Clause}

theorem resolve_fails_iff {path : List Char} :
    (∃ e, c.resolve path = .error e) ↔ Path.Strays path := by
  simp only [resolve_eq_error_iff, ← Option.isSome_iff_exists, Path.isSome_unknownRoot?]

theorem interpolate_fails_iff {v : Value} : (∃ e, c.interpolate v = .error e) ↔
    ∃ text ∈ v.texts, ∃ path, Template.Asks text.toList path ∧ Path.Strays path := by
  simp only [← failure?_eq_some_iff, failure?_interpolate, ← Option.isSome_iff_exists,
    List.findSome?_isSome_iff, Path.isSome_unknownRoot?, asksOf, List.mem_flatMap,
    Template.mem_asks_iff]
  constructor
  · rintro ⟨path, ⟨text, htext, hasks⟩, hstrays⟩
    exact ⟨text, htext, path, hasks, hstrays⟩
  · rintro ⟨text, htext, path, hasks, hstrays⟩
    exact ⟨path, ⟨text, htext, hasks⟩, hstrays⟩

/-- A clause fails for the paths in it, in any context. -/
theorem decide_fails_iff : (∃ e, c.decide clause = .error e) ↔ clause.Strays := by
  unfold Clause.Strays
  rw [← resolve_fails_iff (c := c), ← interpolate_fails_iff (c := c)]
  unfold decide
  simp only [← failure?_eq_some_iff, failure?_both, ← Option.isSome_iff_exists, Option.isSome_or,
    Bool.or_eq_true]

/-! ## All clauses -/

/-- The outcomes of clauses are those of each of them. -/
theorem decideAll_eq_ok_iff {outcomes : List Bool} : c.decideAll clauses = .ok outcomes ↔
    List.Forall₂ (fun clause outcome => c.decide clause = .ok outcome) clauses outcomes := by
  induction clauses generalizing outcomes with
  | nil => simp only [decideAll, Except.ok.injEq, List.forall₂_nil_left_iff, eq_comm]
  | cons clause rest ih =>
    rw [decideAll, both_eq_ok_iff, List.forall₂_cons_left_iff]
    simp only [ih]
    constructor
    · rintro ⟨outcome, outcomes, hfirst, hrest, rfl⟩
      exact ⟨outcome, outcomes, hfirst, hrest, rfl⟩
    · rintro ⟨outcome, outcomes, hfirst, hrest, rfl⟩
      exact ⟨outcome, outcomes, hfirst, hrest, rfl⟩

/-- No clause is passed over, so that an error in any of them is found. -/
theorem decideAll_fails_iff : (∃ e, c.decideAll clauses = .error e) ↔
    ∃ clause ∈ clauses, ∃ e, c.decide clause = .error e := by
  simp only [← failure?_eq_some_iff, ← Option.isSome_iff_exists]
  induction clauses with
  | nil => simp [decideAll, failure?]
  | cons clause rest ih =>
    rw [decideAll, failure?_both, Option.isSome_or, Bool.or_eq_true, ih, List.exists_mem_cons_iff]

end Context

/-- What is said of the clauses of a condition: of each of them, or of one of
them. -/
def Logic.Holds (holds : Clause → Prop) (clauses : List Clause) : Logic → Prop
  | .and => ∀ clause ∈ clauses, holds clause
  | .or => ∃ clause ∈ clauses, holds clause

theorem Logic.Holds_congr {clauses clauses' : List Clause}
    (hmem : ∀ clause, clause ∈ clauses' ↔ clause ∈ clauses) (holds : Clause → Prop)
    (logic : Logic) : logic.Holds holds clauses' ↔ logic.Holds holds clauses := by
  cases logic with
  | and => exact forall_congr' fun clause => imp_congr_left (hmem clause)
  | or => exact exists_congr fun clause => and_congr_left' (hmem clause)

/-- Outcomes are joined as what they are the outcomes of. -/
theorem Logic.join_iff {c : Context} {clauses : List Clause} {outcomes : List Bool}
    (h : List.Forall₂ (fun clause outcome => c.decide clause = .ok outcome) clauses outcomes)
    (logic : Logic) : logic.join outcomes = true ↔
      logic.Holds (fun clause => c.decide clause = .ok true) clauses := by
  cases logic with
  | and =>
    change outcomes.all id = true ↔ ∀ clause ∈ clauses, c.decide clause = .ok true
    induction h with
    | nil => simp
    | cons hfirst _ ih =>
      rw [List.all_cons, Bool.and_eq_true, ih, List.forall_mem_cons, hfirst, id_eq,
        Except.ok.injEq]
  | or =>
    change outcomes.any id = true ↔ ∃ clause ∈ clauses, c.decide clause = .ok true
    induction h with
    | nil => simp
    | cons hfirst _ ih =>
      rw [List.any_cons, Bool.or_eq_true, ih, List.exists_mem_cons_iff, hfirst, id_eq,
        Except.ok.injEq]

namespace Context

variable {c : Context} {condition condition' : Condition}

/-- **A condition fails exactly if a clause of it strays.** -/
theorem satisfies_fails_iff : (∃ e, c.satisfies condition = .error e) ↔
    ∃ clause ∈ condition.clauses, clause.Strays := by
  have hmap : (∃ e, c.satisfies condition = .error e) ↔
      ∃ e, c.decideAll condition.clauses = .error e := by
    simp only [satisfies, ← failure?_eq_some_iff, failure?_map]
  rw [hmap, decideAll_fails_iff]
  simp only [decide_fails_iff]

/-- A condition has an outcome exactly if all its clauses have. -/
theorem exists_satisfies_eq_ok_iff : (∃ met, c.satisfies condition = .ok met) ↔
    ∀ clause ∈ condition.clauses, ∃ outcome, c.decide clause = .ok outcome := by
  simp only [← not_exists_error_iff, satisfies_fails_iff, decide_fails_iff, not_exists, not_and]

/-- **A condition joins the outcomes of all its clauses.** -/
theorem satisfies_eq_ok_iff {met : Bool} : c.satisfies condition = .ok met ↔
    (∀ clause ∈ condition.clauses, ∃ outcome, c.decide clause = .ok outcome) ∧
      (met = true ↔
        condition.logic.Holds (fun clause => c.decide clause = .ok true) condition.clauses) := by
  -- what it comes to if it comes to anything
  have hmeaning : ∀ {met}, c.satisfies condition = .ok met → (met = true ↔
      condition.logic.Holds (fun clause => c.decide clause = .ok true) condition.clauses) := by
    intro met hmet
    obtain ⟨outcomes, houtcomes, rfl⟩ := map_eq_ok_iff.mp hmet
    exact Logic.join_iff (decideAll_eq_ok_iff.mp houtcomes) _
  constructor
  · exact fun hmet => ⟨exists_satisfies_eq_ok_iff.mp ⟨met, hmet⟩, hmeaning hmet⟩
  · rintro ⟨hall, hmet⟩
    obtain ⟨met', hmet'⟩ := exists_satisfies_eq_ok_iff.mpr hall
    rw [hmet', Bool.eq_iff_iff.mpr ((hmeaning hmet').trans hmet.symm)]

/-- **Which clauses there are is all that counts**: neither their order nor how
often each is there. -/
theorem satisfies_concur (hlogic : condition'.logic = condition.logic)
    (hmem : ∀ clause, clause ∈ condition'.clauses ↔ clause ∈ condition.clauses) :
    Concur Eq (c.satisfies condition) (c.satisfies condition') := by
  refine .of_ok (fun met hmet => ⟨met, ?_, rfl⟩) ?_
  · rw [satisfies_eq_ok_iff] at hmet ⊢
    simpa only [hlogic, Logic.Holds_congr hmem, hmem] using hmet
  · simp only [satisfies_fails_iff, hmem, imp_self]

end Context

end Automation
