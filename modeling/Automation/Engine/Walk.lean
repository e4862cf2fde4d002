/-
Automation.Engine.Walk — visiting nodes depth first.

A visit decides where the walk goes on, or halts it. `walk` keeps the
nodes that are still to be visited on a stack; a node is marked when it is
taken from the stack, and marked nodes are passed over. Every visit marks
one more node, so the walk ends when all nodes have been marked at the
latest.
-/
import Automation.Engine.Process

namespace Automation

/-- How a walk goes on after a visit. -/
inductive Onward (ρ : Type) where
  /-- To these nodes, in order, as far as they are not marked. -/
  | follow (targets : List String)
  /-- Not at all. -/
  | halt (reason : ρ)
  deriving Repr, Inhabited

/-- Visit the nodes on the stack and everything they lead to, until a
visit halts the walk; at most `budget` nodes are visited. What the visits
hand on is returned in the end, with the reason if the walk was halted. -/
def walk {σ α ρ : Type} (visit : String → α → Process σ (α × Onward ρ)) :
    (budget : Nat) → (marked stack : List String) → α → Process σ (α × Option ρ)
  | 0, _, _, a => pure (a, none)
  | budget + 1, marked, stack, a =>
    match stack.dropWhile marked.contains with
    | [] => pure (a, none)
    | id :: rest => do
      let (a, onward) ← visit id a
      match onward with
      | .follow targets =>
        let marked := id :: marked
        walk visit budget marked (targets.filter (fun t => !marked.contains t) ++ rest) a
      | .halt reason => pure (a, some reason)

end Automation
