/-
Automation.Proofs.Node.ShuffleTheorems — condition nodes with their clauses in
another order.

A condition node reads its clauses from its data, from the first one to the
last, and stops at a fault. In another order it may be another fault, but there
is one in either order or in none (`Decode.items_concur`). A record is read
alike when what stands under one of its names is exchanged for something that is
read alike (`Reader.Exchanges`), so data in which the clauses are shuffled
(`Condition.Written`) either cannot be read in both orders, or give conditions
with the same clauses. What a condition node then says and gives to the run
counts the clauses and does not name them: it is the very same attempt, unless
it fails in both orders (`Executor.condition_matches`).
-/
import Automation.Node.Executor
import Automation.Proofs.Run.ConditionTheorems
import Automation.Proofs.Workflow.DatingTheorems

namespace Automation

open Automation.Json (Value Outline)

/-! ## Items in another order -/

theorem Json.Outline.ofItems_eq_map (items : List Value) : ofItems items = items.map ofValue := by
  induction items with
  | nil => rfl
  | cons v rest ih => rw [ofItems, ih, List.map_cons]

namespace Decode

/-- Items are read in any order, or in none. -/
theorem items_concur {α : Type} {decode : Decoder α} {os os' : List Outline} (h : os.Perm os') :
    Concur List.Perm (items decode os) (items decode os') := by
  induction h with
  | nil => exact .ok .nil
  | cons o _ ih =>
    refine (Concur.self (R := Eq) (fun _ => rfl) (decode o)).bind ?_
    rintro a - rfl
    exact ih.bind fun as as' has => .ok (has.cons a)
  | swap o o' rest =>
    simp only [items]
    cases decode o with
    | error e => cases decode o' <;> exact .error _ _
    | ok a =>
      cases decode o' with
      | error e' => exact .error _ _
      | ok a' =>
        cases items decode rest with
        | error e => exact .error _ _
        | ok as => exact .ok (.swap a a' as)
  | trans _ _ ih ih' => exact ih.trans ih' fun _ _ _ => .trans

theorem list_concur {α : Type} {decode : Decoder α} {items items' : List Value}
    (h : items.Perm items') : Concur List.Perm (list decode (.ofValue (.array items)))
      (list decode (.ofValue (.array items'))) := by
  simp only [Outline.ofValue, Outline.ofItems_eq_map]
  exact (items_concur (h.map _)).bind fun as as' has => .ok has

theorem Agree.concur {ε α β : Type} {R : α → β → Prop} {x : Except ε α} {y : Except ε β}
    (h : Agree R x y) : Concur R x y := by
  cases h with
  | error e => exact .error e e
  | ok h => exact .ok h

/-! ## Records with a part exchanged -/

namespace Reader

variable {α β γ : Type} {R : α → α → Prop} {name : String} {o o' : Outline}

/-- Under the name, one outline may be exchanged for the other: with related
things given before, both are refused or related things given after. -/
def Exchanges (R : α → α → Prop) (r : Reader α) (name : String) (o o' : Outline) : Prop :=
  ∃ G, r.Follows r G R ∧
    ∀ g g', G g g' → Option.Rel (Concur G) (r.take g name o) (r.take g' name o')

/-- A reader without a field of the name. -/
theorem exchanges_of_silent {r : Reader α} (hr : Alike R r r)
    (hsilent : ∀ given o, r.take given name o = none) : r.Exchanges R name o o' := by
  obtain ⟨G, hr⟩ := hr
  refine ⟨G, hr, fun g g' _ => ?_⟩
  rw [hsilent, hsilent]
  exact .none

/-- The field of the name. -/
theorem exchanges_ofField {field : Field α} (hrefl : ∀ a, R a a)
    (h : Concur R (field.decode o) (field.decode o')) :
    (ofField field).Exchanges R field.name o o' := by
  have habsence : field.absence.Rel R field.absence := by
    cases field.absence with
    | refuse => exact .refuse
    | skip a => exact .skip (hrefl a)
    | fill a => exact .fill (hrefl a)
  refine ⟨_, follows_ofField rfl rfl (fun o => agree_self hrefl _) habsence, ?_⟩
  intro given given' hgiven
  have hnamed : field.isNamed field.name = true := by simp [Field.isNamed]
  simp only [ofField, hnamed, if_true]
  cases hgiven with
  | none => exact .some (h.map fun _ _ => .some)
  | some _ => exact .some (.error _ _)

theorem Exchanges.both {P : α → α → Prop} {Q : β → β → Prop} {R : γ → γ → Prop}
    {combine : α → β → γ} {r : Reader α} {s : Reader β} (hr : r.Exchanges P name o o')
    (hs : s.Exchanges Q name o o')
    (h : ∀ a a' b b', P a a' → Q b b' → R (combine a b) (combine a' b')) :
    (Reader.both combine r s).Exchanges R name o o' := by
  obtain ⟨Left, hleft, htake⟩ := hr
  obtain ⟨Right, hright, htake'⟩ := hs
  refine ⟨_, hleft.both hright h, fun g g' hgiven => ?_⟩
  have hfirst := htake g.1 g'.1 hgiven.1
  dsimp only [Reader.both]
  generalize r.take g.1 name o = taken, r.take g'.1 name o' = taken' at hfirst ⊢
  cases hfirst with
  | some hfirst => exact .some (hfirst.map fun _ _ h => ⟨h, hgiven.2⟩)
  | none =>
    have hsecond := htake' g.2 g'.2 hgiven.2
    generalize s.take g.2 name o = taken, s.take g'.2 name o' = taken' at hsecond ⊢
    cases hsecond with
    | some hsecond => exact .some (hsecond.map fun _ _ h => ⟨hgiven.1, h⟩)
    | none => exact .none

/-- **A record with one part exchanged** reads alike, or in neither way. -/
theorem Exchanges.decode {r : Reader α} {v v' : Value}
    (h : r.Exchanges R name (.ofValue v) (.ofValue v')) (record : String)
    (before after : List (String × Value)) :
    Concur R (r.decode record (.ofValue (.object (before ++ (name, v) :: after))))
      (r.decode record (.ofValue (.object (before ++ (name, v') :: after)))) := by
  obtain ⟨G, hfollows, htake⟩ := h
  -- what stands in front is the same, and so is what stands behind
  have hall : ∀ v, r.takeAll r.start (Outline.ofFields (before ++ (name, v) :: after)) =
      (r.takeAll r.start (Outline.ofFields before)).bind fun given =>
        r.takeAll given (Outline.ofFields ((name, v) :: after)) := by
    intro v
    simp only [Outline.ofFields_eq_map, List.map_append, takeAll_append]
  simp only [Outline.ofValue, Reader.decode, hall]
  refine Concur.bind (R := G) ?_ fun g g' hgiven => (hfollows.finish g g' hgiven).concur
  refine (hfollows.takeAll _ _ _ hfollows.start).concur.bind fun g g' hgiven => ?_
  rw [takeAll_cons, takeAll_cons]
  have hpart := htake g g' hgiven
  dsimp only
  generalize r.take g name (.ofValue v) = taken, r.take g' name (.ofValue v') = taken' at hpart ⊢
  cases hpart with
  | none => exact (hfollows.takeAll _ g g' hgiven).concur
  | some hpart => exact hpart.bind fun g g' hgiven => (hfollows.takeAll _ g g' hgiven).concur

/-- At the head of a list, one outline may be exchanged for the other. -/
def Leads (R : α → α → Prop) (r : Reader α) (o o' : Outline) : Prop :=
  ∀ tooFew place rest closed, Concur (fun x y => R x.1 y.1 ∧ x.2 = y.2)
    (r.ofList tooFew place (o :: rest) closed) (r.ofList tooFew place (o' :: rest) closed)

/-- The first field of a list. -/
theorem leads_ofField {field : Field α} (h : Concur R (field.decode o) (field.decode o')) :
    (ofField field).Leads R o o' :=
  fun _ _ _ _ => h.map fun _ _ h => ⟨h, rfl⟩

theorem Leads.after_ofValue {Q : β → β → Prop} {R : γ → γ → Prop} {combine : α → β → γ} {a : α}
    {s : Reader β} (hs : s.Leads Q o o') (h : ∀ b b', Q b b' → R (combine a b) (combine a b')) :
    (Reader.both combine (ofValue a) s).Leads R o o' :=
  fun tooFew place rest closed =>
    (hs tooFew (place + 0) rest closed).bind fun _ _ hx => .ok ⟨h _ _ hx.1, hx.2⟩

/-- Behind the first field, the list goes on in the same way. -/
theorem Leads.both {P : α → α → Prop} {R : γ → γ → Prop} {combine : α → β → γ} {r : Reader α}
    {s : Reader β} (hr : r.Leads P o o') (h : ∀ a a' b, P a a' → R (combine a b) (combine a' b)) :
    (Reader.both combine r s).Leads R o o' := by
  intro tooFew place rest closed
  refine (hr tooFew place rest closed).bind ?_
  rintro ⟨a, items⟩ ⟨a', items'⟩ ⟨ha, rfl⟩
  refine (Concur.self (R := Eq) (fun _ => rfl) _).bind ?_
  rintro ⟨b, more⟩ - rfl
  exact .ok ⟨h a a' b ha, rfl⟩

theorem Leads.decode {r : Reader α} (h : r.Leads R o o') (record : String) (rest : List Outline)
    (closed : Bool) : Concur R (r.decode record (.array (o :: rest) closed))
      (r.decode record (.array (o' :: rest) closed)) := by
  refine (h _ 0 rest closed).bind ?_
  rintro ⟨a, more⟩ ⟨a', more'⟩ ⟨ha, rfl⟩
  dsimp only
  split
  · split
    · exact .ok ha
    · exact .error _ _
  · exact .error _ _

end Reader

end Decode

/-! ## The data of a condition node -/

namespace Condition

open Decode

/-- The same clauses in another order, joined in the same way. -/
structure Shuffled (condition condition' : Condition) : Prop where
  logic : condition'.logic = condition.logic
  clauses : condition.clauses.Perm condition'.clauses

/-- A condition is written down, in one of the two forms of a record, and again
with its clauses in another order. -/
inductive Written : Value → Value → Prop
  | object {clauses clauses' : List Value} (h : clauses.Perm clauses')
      (before after : List (String × Value)) :
      Written (.object (before ++ ("conditions", .array clauses) :: after))
        (.object (before ++ ("conditions", .array clauses') :: after))
  | list {clauses clauses' : List Value} (h : clauses.Perm clauses') (rest : List Value) :
      Written (.array (.array clauses :: rest)) (.array (.array clauses' :: rest))

theorem Written.isNull {data data' : Value} (h : Written data data') :
    data.isNull = false ∧ data'.isNull = false := by
  cases h <;> exact ⟨rfl, rfl⟩

/-- **Shuffled clauses are read in either order or in neither.** -/
theorem decode_concur {data data' : Value} (h : Written data data') :
    Concur Shuffled (decode (.ofValue data)) (decode (.ofValue data')) := by
  cases h with
  | object h before after =>
    refine Reader.Exchanges.decode ?_ "ConditionSpec" before after
    refine (Reader.Exchanges.both (P := fun f g => f = mk ∧ g = mk) (Q := List.Perm)
      (R := fun f g => ∀ logic, Shuffled (f logic) (g logic)) ?_ ?_ ?_).both (Q := Eq) ?_ ?_
    · exact Reader.exchanges_of_silent (Reader.alike_ofValue ⟨rfl, rfl⟩) fun _ _ => rfl
    · exact Reader.exchanges_ofField .refl (list_concur h)
    · rintro _ _ clauses clauses' ⟨rfl, rfl⟩ hclauses logic
      exact ⟨rfl, hclauses⟩
    · exact Reader.exchanges_of_silent (Reader.alike_self _) fun _ _ => rfl
    · rintro f g logic - hf rfl
      exact hf logic
  | list h rest =>
    simp only [Outline.ofValue, Outline.ofItems]
    refine Reader.Leads.decode ?_ "ConditionSpec" _ true
    refine Reader.Leads.both (P := fun f g => ∀ logic, Shuffled (f logic) (g logic))
      (.after_ofValue (Q := List.Perm) (Reader.leads_ofField (list_concur h)) ?_) ?_
    · exact fun clauses clauses' hclauses logic => ⟨rfl, hclauses⟩
    · exact fun f g logic hf => hf logic

end Condition

/-! ## The node -/

/-- What an attempt at one node is to one at another: the same, unless both
fail. -/
inductive Attempt.Matches : Attempt → Attempt → Prop
  | same (attempt : Attempt) : Matches attempt attempt
  | failed (e e' : NodeError) : Matches (.failed e) (.failed e')

/-- The executors do the same at both nodes, unless they fail at both. -/
structure Executors.Equates (executors : Executors) (node node' : Node) : Prop where
  id : node'.id = node.id
  type : node'.type = node.type
  attempt : ∀ executor, executors node.type = some executor → ∀ around services,
    Attempt.Matches (executor node around services).1 (executor node' around services).1 ∧
      (executor node' around services).2 = (executor node around services).2

theorem Executors.Equates.refl (executors : Executors) (node : Node) :
    executors.Equates node node :=
  ⟨rfl, rfl, fun _ _ _ _ => ⟨.same _, rfl⟩⟩

/-- The same node, but for the order of its clauses if it is a condition. -/
inductive Node.Shuffled : Node → Node → Prop
  | same (node : Node) : Shuffled node node
  | clauses {node : Node} {data : Value} (htype : node.type = .condition)
      (h : Condition.Written node.data data) : Shuffled node { node with data }

namespace Executor

theorem immediate_matches {work : Node → Surroundings → Except NodeError (Note × Output)}
    {node node' : Node} {around : Surroundings}
    (h : Concur Eq (work node around) (work node' around)) (services : Services) :
    Attempt.Matches (immediate work node around services).1
        (immediate work node' around services).1 ∧
      (immediate work node' around services).2 = (immediate work node around services).2 := by
  unfold immediate
  generalize work node around = found, work node' around = found' at h ⊢
  cases h with
  | error e e' => exact ⟨.failed e e', rfl⟩
  | ok h => exact h ▸ ⟨.same _, rfl⟩

/-- **The order of the clauses does not show** in what a condition node does,
unless it fails in either order. -/
theorem condition_matches {node : Node} {data : Value} (h : Condition.Written node.data data)
    (around : Surroundings) (services : Services) :
    Attempt.Matches (condition node around services).1
        (condition { node with data } around services).1 ∧
      (condition { node with data } around services).2 = (condition node around services).2 := by
  refine immediate_matches ?_ services
  have hconfigure : Concur Condition.Shuffled (node.configure Condition.decode node.data)
      ({ node with data }.configure Condition.decode data) := by
    simp only [Node.configure, h.isNull]
    exact (Condition.decode_concur h).mapError _ _
  refine hconfigure.bind fun spec spec' hspec => ?_
  have hmet := Context.satisfies_concur (c := around.context) hspec.logic fun clause =>
    hspec.clauses.mem_iff.symm
  refine (hmet.mapError _ _).bind ?_
  rintro met - rfl
  rw [hspec.logic, hspec.clauses.length_eq]
  exact .ok rfl

end Executor

/-- Executors by which conditions are evaluated, if at all. -/
def Executors.Evaluates (executors : Executors) : Prop :=
  ∀ executor, executors .condition = some executor → executor = Executor.condition

theorem Executors.evaluates_builtin (face : Time.Face) (config : EngineConfig)
    (types : List NodeType) : (only types (builtin face config)).Evaluates := by
  intro executor h
  unfold only at h
  split at h
  · exact (Option.some.inj h).symm
  · cases h

/-- **The order of clauses does not show** at any node. -/
theorem Node.Shuffled.equates {executors : Executors} (he : executors.Evaluates)
    {node node' : Node} (h : node.Shuffled node') : executors.Equates node node' := by
  cases h with
  | same => exact .refl executors node
  | clauses htype h =>
    refine ⟨rfl, rfl, fun executor hexecutor around services => ?_⟩
    obtain rfl := he executor (htype ▸ hexecutor)
    exact Executor.condition_matches h around services

end Automation
