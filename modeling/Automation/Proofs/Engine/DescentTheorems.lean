/-
Automation.Proofs.Engine.DescentTheorems — a driver visits the nodes of a
workflow as a recursive search depth first does.

* `Driver.explore` — the search, written out: pass over a marked node;
  mark any other one, look for a cancellation and for the deadline, take
  the run through the node, and upon its completion explore each of the
  nodes that its routing leads to, in the order of the connections. A
  failure that the workflow goes on after comes back to the caller, every
  other failure, a cancellation and a deadline end the whole search.
* `Engine.search`, `Engine.executeBySearch` — runs that explore the start
  nodes in the order of the workflow.

`drive_eq_search` says that they are the same processes as `Engine.drive`
and `Engine.execute`. Equal processes go through the same changes of the
world, the same locks and the same waits, whatever the collaborators
answer, whenever somebody cancels the run and however long anything
takes, so nothing that can be seen of a run tells the two apart. The
depth of the recursion is bounded by the number of nodes; `extra` says
that a greater bound changes nothing.
-/
import Automation.Proofs.Engine.WalkTheorems
import Automation.Proofs.Workflow.GraphTheorems
import Automation.Engine.Drive

namespace Automation

open Automation.Json (Value)
open Process

/-! ## The search -/

/-- Explore a node and everything that it leads to. -/
def Driver.explore (d : Driver) (g : Graph) :
    (depth : Nat) → String → List String → Run → Process World (Trail Run Halt)
  | depth, id, marked, run =>
    if marked.contains id then return (marked, run, none)
    else
      match depth with
      | 0 => return (marked, run, none)
      | depth + 1 => do
        let marked := id :: marked
        if ← d.isCancelled run then return (marked, run, some .cancelled)
        if ← d.isLate then return (marked, run, some .timedOut)
        match g.node? id with
        | none => return (marked, run, none)
        | some node =>
          let (run, verdict) ← d.runNode node run
          match verdict with
          | .completed output =>
            descendAll (d.explore g depth) (g.next output.routing id) marked run
          | .failed error =>
            if d.workflow.settings.errorHandling == .goOn then
              return (marked, run.addFailure id, none)
            else return (marked, run, some (.failed id error))
          | .cancelled => return (marked, run, some .cancelled)
          | .timedOut => return (marked, run, some .timedOut)

namespace Engine

/-- Take a run through its workflow by exploring the start nodes. -/
def search (e : Engine) (depth : Nat) (w : Workflow) (run : Run) (token : Nat) :
    Process World Run := do
  if run.status.isTerminal then return run
  let now ← Driver.clock
  let d : Driver := ⟨e.executors, w, token, w.settings.timeout.map (now + ·)⟩
  let g := Graph.ofWorkflow w
  let (_, run, halt) ← descendAll (d.explore g depth) g.starts [] run
  d.conclude run halt

/-- Run a workflow from start to end by exploring the start nodes. -/
def executeBySearch (e : Engine) (depth : Nat) (w : Workflow) (payload : Value)
    (options : RunOptions) : Process World Run := do
  let (run, token) ← e.prepare w payload options
  e.search depth w run token

end Engine

/-! ## Visits -/

/-- A visit leads to nodes of the graph only. -/
theorem visit_within (d : Driver) (w : Workflow) (id : String) (run : Run) :
    (d.visit (Graph.ofWorkflow w) id run).Always
      fun r => r.2.Within (Graph.ofWorkflow w).ids := by
  refine always_bind (d.isCancelled run) ?_
  intro cancelled
  cases cancelled
  case true => trivial
  refine always_bind d.isLate ?_
  intro late
  cases late
  case true => trivial
  cases hnode : (Graph.ofWorkflow w).node? id with
  | none => exact List.nil_subset _
  | some node =>
    refine always_bind (d.runNode node run) ?_
    rintro ⟨run, verdict⟩
    cases verdict with
    | completed output => exact Graph.next_subset w output.routing id
    | failed error =>
      dsimp only
      split
      · exact List.nil_subset _
      · trivial
    | cancelled => trivial
    | timedOut => trivial

/-- The search is the descent by visits of the driver. -/
theorem explore_eq_descend (d : Driver) (g : Graph) (depth : Nat) :
    d.explore g depth = descend (d.visit g) depth := by
  induction depth with
  | zero =>
    funext id marked run
    unfold Driver.explore descend
    rfl
  | succ depth ih =>
    funext id marked run
    cases h : marked.contains id with
    | true =>
      rw [descend_marked _ h]
      unfold Driver.explore
      rw [if_pos h]
      rfl
    | false =>
      rw [descend_unmarked _ h, Driver.visit, bind_bind]
      unfold Driver.explore
      rw [if_neg (by rw [h]; exact Bool.false_ne_true)]
      dsimp only
      rw [ih]
      congr 1
      funext cancelled
      cases cancelled
      case true => rfl
      simp only [Bool.false_eq_true, if_false, bind_bind]
      congr 1
      funext late
      cases late
      case true => rfl
      simp only [Bool.false_eq_true, if_false]
      cases hnode : g.node? id with
      | none => rfl
      | some node =>
        simp only [bind_bind]
        congr 1
        funext r
        obtain ⟨run, verdict⟩ := r
        cases verdict with
        | completed output => rfl
        | failed error =>
          dsimp only
          split <;> rfl
        | cancelled => rfl
        | timedOut => rfl

/-- **The explicit stack is the recursion**: runs that are driven with a
stack of nodes are the runs that explore the start nodes recursively. -/
theorem drive_eq_search (e : Engine) (w : Workflow) (extra : Nat) :
    (∀ (run : Run) (token : Nat),
      e.drive w run token = e.search ((Graph.ofWorkflow w).size + extra) w run token) ∧
    (∀ (payload : Value) (options : RunOptions),
      e.execute w payload options =
        e.executeBySearch ((Graph.ofWorkflow w).size + extra) w payload options) := by
  have hsize : (Graph.ofWorkflow w).ids.length ≤ (Graph.ofWorkflow w).size :=
    Nat.le_of_eq (Graph.length_ids _)
  have hdepth : (Graph.ofWorkflow w).ids.length ≤ (Graph.ofWorkflow w).size + extra :=
    Nat.le_trans hsize (Nat.le_add_right _ _)
  have hdrive : ∀ (run : Run) (token : Nat),
      e.drive w run token = e.search ((Graph.ofWorkflow w).size + extra) w run token := by
    intro run token
    unfold Engine.drive Engine.search
    split
    · rfl
    · congr 1
      funext now
      dsimp only
      rw [walk_eq_descendAll _ (visit_within _ w) (Graph.starts_subset _) hsize hdepth,
        bind_bind, explore_eq_descend]
      rfl
  refine ⟨hdrive, ?_⟩
  intro payload options
  unfold Engine.execute Engine.executeBySearch
  congr 1
  funext r
  exact hdrive r.1 r.2

end Automation
