/-
Automation.Workflow.Cycle — looking for a cycle in a graph.

The search goes depth first from each node in order and along the
connections in order. `path` is the way from the root of the search to
the node in hand, last node first; `cleared` are the nodes from which no
cycle can be reached. Meeting a node of the path again closes a cycle,
which is reported from that node around to it. A cleared node is not
searched twice. A path has no node twice, so `fuel` need only be the
number of nodes.
-/
import Automation.Workflow.Graph

namespace Automation.Graph

/-- Search on from the nodes `targets`, one after the other, by `visit`:
the cleared nodes, or the first cycle. -/
def searchAll (visit : List String → String → Except (List String) (List String)) :
    List String → List String → Except (List String) (List String)
  | cleared, [] => .ok cleared
  | cleared, id :: rest => do
    let cleared ← visit cleared id
    searchAll visit cleared rest

/-- Search on from a node that `path` leads to. -/
def search (g : Graph) (fuel : Nat) (path cleared : List String) (id : String) :
    Except (List String) (List String) :=
  if path.contains id then
    .error (id :: (path.takeWhile (· != id)).reverse ++ [id])
  else if cleared.contains id then .ok cleared
  else
    match fuel with
    | 0 => .ok cleared
    | fuel + 1 => do
      let cleared ← searchAll (g.search fuel (id :: path)) cleared (g.successors id)
      return id :: cleared

/-- A cycle, as the ids along it, the first one again at the end. -/
def cycle? (g : Graph) : Option (List String) :=
  match searchAll (g.search g.size []) [] (g.nodes.map (·.id)) with
  | .error cycle => some cycle
  | .ok _ => none

end Automation.Graph
