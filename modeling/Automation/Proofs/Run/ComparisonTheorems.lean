/-
Automation.Proofs.Run.ComparisonTheorems — integers in conditions and branches.

Numbers are compared as doubles, and that goes for two integers too: an
operator says of them what it says of the integers that they round to
(`Operator.holds_integers`). The order is never turned round, and a small
integer is told from every other one. Two large integers that round to one
double pass for equal, though; these are the only ones that are not compared
as integers (`compared_exactly_iff`). A condition on an integer, and a branch,
which takes the first case that passes for equal, decide accordingly
(`integers_decide_as_nearest`).
-/
import Automation.Node.Executor
import Automation.Proofs.Decimal.DoubleTheorems

namespace Automation

open Automation.Json (Value Number)
open Automation.Decimal (nearestInt nearestInt_inj nearestInt_mono lt_of_nearestInt_lt beq_ofInt
  lt_ofInt)

/-! ## Operators -/

namespace Operator

/-- What an operator says about integers, none of which contains another. -/
def onIntegers : Operator → Int → Int → Bool
  | .equals, a, b => a == b
  | .notEquals, a, b => a != b
  | .contains, _, _ => false
  | .greaterThan, a, b => b < a
  | .lessThan, a, b => a < b

end Operator

/-- An integer that is kept exactly has at most sixty-four digits. -/
theorem Json.Number.InRange.natAbs_lt {i : Int} (h : Number.InRange i) : i.natAbs < 2 ^ 64 := by
  obtain ⟨hleast, hlargest⟩ := h
  unfold Number.leastInteger at hleast
  unfold Text.largest64 at hlargest
  omega

section

variable {a b : Int}

/-- Equal integers are equal as doubles, so nothing is gained by comparing them exactly first. -/
theorem looselyEqual_integers (ha : Number.InRange a) (hb : Number.InRange b) :
    looselyEqual (.ofInt a) (.ofInt b) = (nearestInt a == nearestInt b) := by
  have hdoubles := beq_ofInt ha.natAbs_lt hb.natAbs_lt
  change (a == b || Float.ofInt a == Float.ofInt b) = _
  rw [Bool.eq_iff_iff, Bool.or_eq_true, hdoubles, beq_iff_eq, beq_iff_eq]
  exact or_iff_right_of_imp (congrArg nearestInt)

/-- An operator says of integers what it says of those that they round to. -/
theorem Operator.holds_integers (ha : Number.InRange a) (hb : Number.InRange b) (op : Operator) :
    op.holds (.ofInt a) (.ofInt b) = op.onIntegers (nearestInt a) (nearestInt b) := by
  cases op with
  | equals => exact looselyEqual_integers ha hb
  | notEquals => exact congrArg (!·) (looselyEqual_integers ha hb)
  | contains => rfl
  | greaterThan => exact decide_eq_decide.mpr (lt_ofInt hb.natAbs_lt ha.natAbs_lt)
  | lessThan => exact decide_eq_decide.mpr (lt_ofInt ha.natAbs_lt hb.natAbs_lt)

/-- **Integers are compared exactly unless they share a double.** -/
theorem compared_exactly_iff (ha : Number.InRange a) (hb : Number.InRange b) :
    (∀ op : Operator, op.holds (.ofInt a) (.ofInt b) = op.onIntegers a b) ↔
      (nearestInt a = nearestInt b → a = b) := by
  simp only [Operator.holds_integers ha hb]
  constructor
  · intro hexact hround
    have hequals : (nearestInt a == nearestInt b) = (a == b) := hexact .equals
    rw [beq_iff_eq.mpr hround] at hequals
    exact beq_iff_eq.mp hequals.symm
  · intro hapart op
    have hlt : ∀ {m n : Int}, (nearestInt m = nearestInt n → m = n) →
        (nearestInt m < nearestInt n ↔ m < n) := by
      intro m n hmn
      refine ⟨lt_of_nearestInt_lt, fun h => ?_⟩
      have hle := nearestInt_mono (Int.le_of_lt h)
      have hne : nearestInt m ≠ nearestInt n := fun hround => Int.ne_of_lt h (hmn hround)
      omega
    have heq : nearestInt a = nearestInt b ↔ a = b := ⟨hapart, congrArg nearestInt⟩
    have hless := hlt hapart
    have hgreater := hlt fun hround => (hapart hround.symm).symm
    cases op <;> simp [Operator.onIntegers, heq, hless, hgreater, bne]

/-- The larger integer is never taken for the smaller one. -/
theorem Operator.holds_integers_order (ha : Number.InRange a) (hb : Number.InRange b) :
    (Operator.greaterThan.holds (.ofInt a) (.ofInt b) = true → b < a) ∧
    (Operator.lessThan.holds (.ofInt a) (.ofInt b) = true → a < b) := by
  simp only [Operator.holds_integers ha hb, Operator.onIntegers, decide_eq_true_iff]
  exact ⟨lt_of_nearestInt_lt, lt_of_nearestInt_lt⟩

end

/-! ## Decisions -/

/-- The first of the cases whose integer rounds like this one. -/
def firstAlike (a : Int) (cases : List BranchCase) (wanted : List Int) : Option String :=
  ((cases.zip wanted).find? fun p => nearestInt a == nearestInt p.2).map (·.1.port)

/-- A branch on an integer takes the first case that rounds alike. -/
theorem firstCase_integers {a : Int} (ha : Number.InRange a) {c : Context}
    {cases : List BranchCase} {wanted : List Int}
    (h : List.Forall₂ (fun (case : BranchCase) b =>
      Number.InRange b ∧ c.interpolate case.value = .ok (.ofInt b)) cases wanted) :
    Executor.firstCase c (.ofInt a) cases = .ok (firstAlike a cases wanted) := by
  induction h with
  | nil => rfl
  | @cons case b cases wanted hcase _ ih =>
    obtain ⟨hb, hvalue⟩ := hcase
    have hstep : Executor.firstCase c (.ofInt a) (case :: cases) =
        if nearestInt a == nearestInt b then .ok (some case.port)
        else Executor.firstCase c (.ofInt a) cases := by
      rw [Executor.firstCase, hvalue, ← looselyEqual_integers ha hb]
      rfl
    rw [hstep, ih]
    unfold firstAlike
    rw [List.zip_cons_cons, List.find?_cons]
    cases nearestInt a == nearestInt b <;> rfl

/-- **Conditions and branches take an integer for the one that it rounds to.**
It is compared with every integer by the operators as they are on those that
the two round to, so exactly unless the two share a double, never the wrong
way round, and exactly if one of them is less than `2 ^ 53`. A clause on it
decides likewise, and a branch on it leaves by the port of the first case
that rounds alike. -/
theorem integers_decide_as_nearest {a : Int} (ha : Number.InRange a) :
    (∀ b, Number.InRange b →
      (∀ op : Operator, op.holds (.ofInt a) (.ofInt b) =
        op.onIntegers (nearestInt a) (nearestInt b)) ∧
      ((∀ op : Operator, op.holds (.ofInt a) (.ofInt b) = op.onIntegers a b) ↔
        (nearestInt a = nearestInt b → a = b)) ∧
      (a.natAbs < 2 ^ 53 ∨ b.natAbs < 2 ^ 53 →
        ∀ op : Operator, op.holds (.ofInt a) (.ofInt b) = op.onIntegers a b) ∧
      (Operator.greaterThan.holds (.ofInt a) (.ofInt b) = true → b < a) ∧
      (Operator.lessThan.holds (.ofInt a) (.ofInt b) = true → a < b)) ∧
    (∀ (c : Context) (clause : Clause) (b : Int), Number.InRange b →
      c.resolve clause.field.toList = .ok (.ofInt a) →
      c.interpolate clause.value = .ok (.ofInt b) →
      c.decide clause = .ok (clause.operator.onIntegers (nearestInt a) (nearestInt b))) ∧
    (∀ (node : Node) (around : Surroundings) (services : Services) (config : BranchConfig)
      (wanted : List Int),
      node.configure BranchConfig.decode node.data = .ok config →
      around.context.resolve config.field.toList = .ok (.ofInt a) →
      List.Forall₂ (fun (case : BranchCase) b =>
        Number.InRange b ∧ around.context.interpolate case.value = .ok (.ofInt b))
          config.cases wanted →
      ∃ output : Output,
        (Executor.branch node around services).1.finish = some { ending := .answer output } ∧
        output.routing =
          .port ((firstAlike a config.cases wanted).getD config.defaultPort) false) := by
  refine ⟨fun b hb => ?_, fun c clause b hb hfield hvalue => ?_,
    fun node around services config wanted hconfig hfield hcases => ?_⟩
  · refine ⟨Operator.holds_integers ha hb, compared_exactly_iff ha hb, fun hsmall => ?_,
      Operator.holds_integers_order ha hb⟩
    refine (compared_exactly_iff ha hb).mpr fun hround => ?_
    rcases hsmall with hsmall | hsmall
    · exact (nearestInt_inj hsmall).mp hround
    · exact ((nearestInt_inj hsmall).mp hround.symm).symm
  · rw [Context.decide, hfield, hvalue, ← Operator.holds_integers ha hb]
    rfl
  · simp only [Executor.branch, Executor.immediate, hconfig, hfield, Executor.reading, bind,
      Except.bind, Except.mapError, firstCase_integers ha hcases, pure, Except.pure]
    exact ⟨_, rfl, rfl⟩

/-- A context in which `count` is an integer. -/
def counting (i : Int) : Context :=
  { (default : Context) with vars := [("count", .ofInt i)] }

/-- A branch on `count` with a case for each of these integers. -/
def countingBranch (cases : List (Int × String)) : Node where
  id := "b"
  type := .branch
  name := none
  inputs := []
  outputs := []
  data := .ofFields [
    ("field", .string "variables.count"),
    ("cases", .array (cases.map fun (i, port) =>
      .ofFields [("value", .ofInt i), ("port", .string port)]))]

/-- The least integer that is not a double shares the one before it, whose case is taken. -/
theorem integers_decide_as_nearest_odd :
    Number.InRange 9007199254740993 ∧
    Operator.greaterThan.holds (.ofInt 9007199254740993) (.ofInt 9007199254740992) = false ∧
    (counting 9007199254740993).decide ⟨"variables.count", .equals, .ofInt 9007199254740992⟩ =
      .ok true ∧
    ∃ output : Output,
      (Executor.branch
        (countingBranch [(9007199254740992, "even"), (9007199254740993, "odd")])
        { context := counting 9007199254740993, runId := "", workflowId := "", now := 0 }
        default).1.finish = some { ending := .answer output } ∧
      output.routing = .port "even" false := by
  have hodd : Number.InRange 9007199254740993 := by decide
  have heven : Number.InRange 9007199254740992 := by decide
  obtain ⟨hoperators, hclauses, hbranch⟩ := integers_decide_as_nearest hodd
  refine ⟨hodd, ?_, ?_, ?_⟩
  · exact ((hoperators _ heven).1 _).trans (by decide)
  · exact (hclauses (counting _) ⟨"variables.count", .equals, .ofInt _⟩ _ heven rfl rfl).trans
      (by decide)
  · exact hbranch (countingBranch [(9007199254740992, "even"), (9007199254740993, "odd")])
      { context := counting 9007199254740993, runId := "", workflowId := "", now := 0 } default
      ⟨"variables.count", [⟨.ofInt 9007199254740992, "even"⟩, ⟨.ofInt 9007199254740993, "odd"⟩],
        "default"⟩
      [9007199254740992, 9007199254740993] rfl rfl
      (.cons ⟨heven, rfl⟩ (.cons ⟨hodd, rfl⟩ .nil))

/-- So integers are not always compared exactly. -/
theorem integers_not_always_compared_exactly :
    ¬ ∀ a b : Int, Number.InRange a → Number.InRange b →
      ∀ op : Operator, op.holds (.ofInt a) (.ofInt b) = op.onIntegers a b := by
  intro h
  have hexact := h 9007199254740993 9007199254740992 (by decide) (by decide) .equals
  rw [Operator.holds_integers (by decide) (by decide)] at hexact
  revert hexact
  decide

end Automation
