/-
Automation.Proofs.Engine.CallTheorems — the trials of a story are the calls of
executors.

A story tells of trials, which the driver itself does not count. What executors
do to the services can be counted from outside, though: let each call of one add
one to some measure of the services (`Executors.Counts`). `Process.Adds` says
what a process adds to a measure by its own changes, whatever the others do to
it meanwhile. A driver adds as many as its story has trials (`Engine.adds_relate`):
nothing but a call of an executor changes the services, and no call goes untold.
-/
import Automation.Proofs.Engine.StoryTheorems

namespace Automation

open Process

variable {σ α β ρ : Type}

/-! ## What a process adds -/

namespace Process

/-- On every path, what the changes of the process add to the measure, and `n` that
was added before, is the `total` of its result. -/
def Adds (measure : σ → Nat) (total : α → Nat) : Process σ α → (n : Nat) → Prop
  | done a, n => n = total a
  | act change next, n =>
    ∀ s, ∃ k, measure (change s) = measure s + k ∧ (next s).Adds measure total (n + k)
  | locked change next, n =>
    ∀ s, ∃ k, measure (change s) = measure s + k ∧ (next s).Adds measure total (n + k)
  | spend _ next, n => next.Adds measure total n
  | await _ next, n => ∀ wake, (next wake).Adds measure total n

variable {measure : σ → Nat} {total : α → Nat} {total' : β → Nat}

/-- One process after the other. -/
theorem Adds.bind {k : α → Process σ β} (hk : ∀ a, (k a).Adds measure total' (total a)) :
    ∀ {p : Process σ α} {n : Nat}, p.Adds measure total n → (p >>= k).Adds measure total' n
  | done a, _, hp => hp ▸ hk a
  | act _ _, _, hp => fun s => (hp s).imp fun _ h => ⟨h.1, h.2.bind hk⟩
  | locked _ _, _, hp => fun s => (hp s).imp fun _ h => ⟨h.1, h.2.bind hk⟩
  | spend _ next, _, hp => Adds.bind (p := next) hk hp
  | await _ _, _, hp => fun wake => (hp wake).bind hk

theorem adds_map {f : α → β} : ∀ {p : Process σ α} {n : Nat},
    (f <$> p).Adds measure total' n ↔ p.Adds measure (fun a => total' (f a)) n
  | done _, _ => Iff.rfl
  | act _ _, _ => forall_congr' fun _ => exists_congr fun _ => and_congr Iff.rfl adds_map
  | locked _ _, _ => forall_congr' fun _ => exists_congr fun _ => and_congr Iff.rfl adds_map
  | spend _ next, _ => adds_map (p := next)
  | await _ _, _ => forall_congr' fun _ => adds_map

/-- Looking at the state adds nothing. -/
theorem Adds.read_bind {f : σ → α} {k : α → Process σ β} {n : Nat}
    (hk : ∀ a, (k a).Adds measure total' n) : (read f >>= k).Adds measure total' n :=
  fun s => ⟨0, rfl, hk (f s)⟩

/-- Changes that leave the measure alone add nothing. -/
theorem Adds.of_does {n : Nat} : ∀ {p : Process σ α},
    p.Does (fun s s' => measure s' = measure s) → p.Adds measure (fun _ => n) n
  | done _, _ => rfl
  | act _ _, hp => fun s => ⟨0, (hp s).1, Adds.of_does (hp s).2⟩
  | locked _ _, hp => fun s => ⟨0, (hp s).1, Adds.of_does (hp s).2⟩
  | spend _ next, hp => Adds.of_does (p := next) hp
  | await _ _, hp => fun wake => Adds.of_does (hp wake)

end Process

/-- A walk adds what its visits add. -/
theorem adds_walk {measure : σ → Nat} (total : α → Nat)
    {visit : String → α → Process σ (α × Onward ρ)}
    (hvisit : ∀ id a, (visit id a).Adds measure (fun r => total r.1) (total a)) :
    ∀ (budget : Nat) (marked stack : List String) (a : α),
      (walk visit budget marked stack a).Adds measure (fun r => total r.1) (total a)
  | 0, _, _, _ => rfl
  | budget + 1, marked, stack, a => by
    unfold walk
    cases stack.dropWhile marked.contains with
    | nil => rfl
    | cons id rest =>
      refine Adds.bind ?_ (hvisit id a)
      rintro ⟨a, onward⟩
      cases onward with
      | halt reason => rfl
      | follow targets => exact adds_walk total hvisit budget _ _ _

/-! ## Calls of executors -/

/-- The calls of executors in a story: its trials, for all nodes. -/
def Story.calls (story : Story) : Nat :=
  (story.flatMap (·.trials)).length

theorem Story.calls_snoc (story : Story) (chapter : Chapter) :
    Story.calls (story ++ [chapter]) = story.calls + chapter.trials.length := by
  unfold calls
  rw [List.flatMap_append, List.length_append, List.flatMap_singleton]

/-- Each call of an executor for a node of the workflow counts one. -/
def Executors.Counts (executors : Executors) (w : Workflow) (count : Services → Nat) : Prop :=
  ∀ node ∈ w.nodes, ∀ executor, executors node.type = some executor →
    ∀ around services, count (executor node around services).2 = count services + 1

namespace Driver

variable {count : Services → Nat} (d : Driver)

theorem adds_save (run : Run) (n : Nat) : (save run).Adds (count ·.services) (fun _ => n) n :=
  fun _ => ⟨0, rfl, rfl⟩

theorem adds_pause (due : Due) (n : Nat) :
    (d.pause due).Adds (count ·.services) (fun _ => n) n :=
  fun _ => rfl

theorem adds_sleep (ms n : Nat) : (d.sleep ms).Adds (count ·.services) (fun _ => n) n :=
  Adds.read_bind fun _ => d.adds_pause _ n

theorem adds_awaitEnd (log : Logger) (finish : Option Finish) (n : Nat) :
    (d.awaitEnd log finish).Adds (count ·.services) (fun _ => n) n := by
  refine Adds.of_does ?_
  cases finish with
  | none => exact fun _ => trivial
  | some finish =>
    rw [awaitEnd_some]
    refine Does.then ?_ ?_
    · unfold lasts
      cases finish.lasts with
      | none => trivial
      | some ms => exact Does.read_bind (fun _ => rfl) fun _ _ => trivial
    · intro wake
      cases wake with
      | elapsed => exact Does.read_bind (fun _ => rfl) fun _ => trivial
      | cancelled => trivial
      | deadline => trivial

section

variable {executor : Executor} {node : Node}
  (hcount : ∀ around services, count (executor node around services).2 = count services + 1)

include hcount

theorem adds_invoke (run : Run) (n : Nat) :
    (invoke executor node run).Adds (count ·.services) (fun _ => n + 1) n :=
  fun _ => ⟨1, hcount _ _, rfl⟩

theorem adds_tellAttempt (run : Run) (log : Logger) (n : Nat) :
    (d.tellAttempt executor node run log).Adds (count ·.services) (fun r => n + r.2.length) n := by
  unfold tellAttempt
  refine Adds.bind ?_ (d.adds_pause .nothing n)
  intro wake
  cases wake with
  | cancelled => rfl
  | deadline => rfl
  | elapsed =>
    refine Adds.bind ?_ (adds_invoke hcount run n)
    rintro ⟨course, now⟩
    have hspend : (Process.spend course.cost (pure ())).Adds (fun s : World => count s.services)
        (fun _ => n + 1) (n + 1) := rfl
    refine Adds.bind (fun _ => ?_) hspend
    refine Adds.bind ?_ (d.adds_awaitEnd _ _ (n + 1))
    exact fun _ => rfl

/-- However often a node is attempted, each attempt is told. -/
theorem adds_tellAttempts (run : Run) (more : Nat) : ∀ (number : Nat) (log : Logger) (n : Nat),
    (d.tellAttempts executor node run more number log).Adds (count ·.services)
      (fun r => n + r.2.length) n := by
  induction more with
  | zero =>
    intro number log n
    unfold tellAttempts
    refine Adds.bind ?_ (d.adds_tellAttempt hcount run log n)
    exact fun _ => rfl
  | succ more ih =>
    intro number log n
    unfold tellAttempts
    refine Adds.bind ?_ (d.adds_tellAttempt hcount run log n)
    rintro ⟨⟨log, verdict⟩, trials⟩
    cases verdict with
    | completed output => rfl
    | cancelled => rfl
    | timedOut => rfl
    | failed error =>
      refine Adds.read_bind fun now => ?_
      refine Adds.bind ?_ (d.adds_sleep _ (n + trials.length))
      intro wake
      cases wake with
      | cancelled => rfl
      | deadline => rfl
      | elapsed =>
        refine Adds.bind ?_ (ih _ _ (n + trials.length))
        rintro ⟨result, others⟩
        change n + trials.length + others.length = n + (trials ++ others).length
        rw [List.length_append, Nat.add_assoc]

end

theorem adds_tellNode (hcounts : d.executors.Counts d.workflow count) {node : Node}
    (hnode : node ∈ d.workflow.nodes) (run : Run) (n : Nat) :
    (d.tellNode node run).Adds (count ·.services) (fun r => n + r.2.length) n := by
  have htries : ∀ run', (d.tellTries node run').Adds (count ·.services)
      (fun r => n + r.2.length) n := by
    intro run'
    unfold tellTries
    cases hexecutor : d.executors node.type with
    | none => rfl
    | some executor =>
      exact d.adds_tellAttempts (hcounts node hnode executor hexecutor) run' _ 1 _ n
  refine Adds.read_bind fun now => Adds.bind (fun run' => ?_) (adds_save _ n)
  refine Adds.bind ?_ (htries run')
  rintro ⟨⟨number, log, verdict⟩, trials⟩
  refine Adds.read_bind fun now' => Adds.bind ?_ (adds_save _ (n + trials.length))
  exact fun run'' => rfl

theorem adds_relateVisit (hcounts : d.executors.Counts d.workflow count) (id : String)
    (a : Run × Story) : (d.relateVisit (.ofWorkflow d.workflow) id a).Adds (count ·.services)
      (fun r => r.1.2.calls) a.2.calls := by
  obtain ⟨run, story⟩ := a
  refine Adds.read_bind fun cancelled => ?_
  cases cancelled
  case true => rfl
  refine Adds.read_bind fun late => ?_
  cases late
  case true => rfl
  simp only [Bool.false_eq_true, if_false]
  cases hnode : (Graph.ofWorkflow d.workflow).node? id with
  | none => rfl
  | some node =>
    have hmem := firstNodes_subset [] d.workflow.nodes (Graph.node?_some hnode).1
    refine Adds.bind ?_ (d.adds_tellNode hcounts hmem run story.calls)
    rintro ⟨⟨run', verdict⟩, trials⟩
    have hcalls := story.calls_snoc ⟨node, verdict, trials⟩
    cases verdict with
    | completed output => exact hcalls.symm
    | cancelled => exact hcalls.symm
    | timedOut => exact hcalls.symm
    | failed error =>
      dsimp only
      split <;> exact hcalls.symm

theorem adds_conclude (run : Run) (halt : Option Halt) (n : Nat) :
    (d.conclude run halt).Adds (count ·.services) (fun _ => n) n := by
  have hasked : ∀ now, (d.isCancelled run >>= fun cancelled =>
      if cancelled then save (run.cancel now) else save (run.finish .completed now)).Adds
        (count ·.services) (fun _ => n) n := by
    refine fun now => Adds.read_bind ?_
    intro cancelled
    cases cancelled with
    | true => exact adds_save _ n
    | false => exact adds_save _ n
  refine Adds.read_bind ?_
  intro now
  cases halt with
  | none => exact hasked now
  | some reason =>
    cases reason with
    | failed node error => exact adds_save _ n
    | timedOut => exact adds_save _ n
    | cancelled => exact hasked now

end Driver

/-- **The trials are the calls**: a run that is driven adds as many to the count as
its story has trials. -/
theorem Engine.adds_relate {count : Services → Nat} (e : Engine) {w : Workflow}
    (hcounts : e.executors.Counts w count) (run : Run) (token : Nat) :
    (e.relate w run token).Adds (count ·.services) (fun r => r.2.calls) 0 := by
  unfold relate
  split
  · rfl
  · refine Adds.read_bind fun now => ?_
    have hvisit := Driver.adds_relateVisit (e.driver w token now) hcounts
    refine Adds.bind ?_ (adds_walk (fun a => Story.calls a.2) hvisit _ [] _ (run, []))
    rintro ⟨⟨run', story⟩, halt⟩
    refine Adds.bind ?_ ((e.driver w token now).adds_conclude run' halt story.calls)
    exact fun _ => rfl

end Automation
