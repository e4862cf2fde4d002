/-
Automation.Workflow.Graph — the graph of a workflow.

The graph keeps the first node of each id and the connections whose ends
are both declared (`Graph.ofWorkflow`). A node that has run chooses by its
`Routing` which of its connections are followed: all, or those tagged with
one port, and the untagged ones only if it says so. `Graph.next` lists the
targets of the followed connections in the order of the connections, each
once.

`Workflow.startNodes` and `Workflow.successors` answer the same questions
from the lists of the workflow alone, without a graph.
-/
import Automation.Workflow.Basic

namespace Automation

/-! ## Routing -/

/-- Which connections of a node are followed. -/
inductive Routing where
  | all
  /-- Those tagged with the port, and the untagged ones if asked. -/
  | port (name : String) (untagged : Bool)
  deriving DecidableEq, Repr, Inhabited

/-- Whether a connection is followed. -/
def Routing.follows : Routing → Connection → Bool
  | .all, _ => true
  | .port name untagged, c =>
    match c.sourcePort with
    | some tag => tag == name
    | none => untagged

/-! ## The graph -/

/-- Nodes of distinct ids, and connections between them. -/
structure Graph where
  nodes : List Node
  connections : List Connection
  deriving Repr, Inhabited

/-- The first node of each id, without those whose id is among `seen`. -/
def firstNodes (seen : List String) : List Node → List Node
  | [] => []
  | node :: rest =>
    if seen.contains node.id then firstNodes seen rest
    else node :: firstNodes (node.id :: seen) rest

/-- Each item where it first occurs. -/
def firsts (seen : List String) : List String → List String
  | [] => []
  | id :: rest =>
    if seen.contains id then firsts seen rest else id :: firsts (id :: seen) rest

namespace Graph

/-- The graph of a workflow. -/
def ofWorkflow (w : Workflow) : Graph where
  nodes := firstNodes [] w.nodes
  connections := w.connections.filter fun c => w.declares c.source && w.declares c.target

/-- The number of nodes. -/
def size (g : Graph) : Nat :=
  g.nodes.length

/-- The node of an id. -/
def node? (g : Graph) (id : String) : Option Node :=
  g.nodes.find? fun node => node.id == id

/-- The ids of the nodes that no connection leads to, in order. -/
def starts (g : Graph) : List String :=
  (g.nodes.map (·.id)).filter fun id => !g.connections.any fun c => c.target == id

/-- The nodes reached from a node along the connections that are followed. -/
def next (g : Graph) (routing : Routing) (id : String) : List String :=
  firsts [] ((g.connections.filter fun c => c.source == id && routing.follows c).map (·.target))

/-- All nodes that a node is connected to. -/
def successors (g : Graph) (id : String) : List String :=
  g.next .all id

end Graph

/-! ## From the lists alone -/

namespace Workflow

/-- The nodes whose id is the target of no connection, in order. -/
def startNodes (w : Workflow) : List Node :=
  w.nodes.filter fun node => !w.connections.any fun c => c.target == node.id

/-- The target of every connection that leaves a node, as far as it is
declared. -/
def successors (w : Workflow) (id : String) : List Node :=
  (w.connections.filter fun c => c.source == id).filterMap fun c => w.node? c.target

end Workflow

end Automation
