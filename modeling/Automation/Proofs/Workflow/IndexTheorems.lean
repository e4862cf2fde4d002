/-
Automation.Proofs.Workflow.IndexTheorems — a graph with numbered nodes and
edges.

`Graph` filters the connections of a workflow each time it is asked. An
`Index` is built once: nodes and edges get numbers in the order in which they
are added, and each node keeps the numbers of the edges at it, the newest
first. To follow the edges of a node in the order of the connections, they are
sorted by their numbers, and of the nodes that they lead to each is taken
once.

What is kept at a node is exactly the edges at it (`Index.Sound`), which every
connection that is added keeps up (`Index.Sound.addConnection`). So the index
of a workflow knows the nodes and connections of its graph
(`Index.toGraph_build`), follows the same connections in the same order
(`Index.Sound.map_via`) and starts at the same nodes
(`Index.Sound.map_starts`).
-/
import Mathlib.Data.List.Nodup
import Mathlib.Logic.Function.Basic
import Automation.Proofs.Workflow.GraphTheorems

namespace Automation

/-! ## First occurrences -/

/-- What is new in a list, each item where it first occurs. -/
theorem firsts_eq_eraseDups : ∀ seen ids : List String,
    firsts seen ids = (ids.filter fun id => !seen.contains id).eraseDups
  | _, [] => rfl
  | seen, id :: rest => by
    unfold firsts
    cases hid : seen.contains id with
    | true =>
      rw [if_pos rfl, firsts_eq_eraseDups, List.filter_cons, hid]
      rfl
    | false =>
      have hnew : ∀ x, (!(id :: seen).contains x) = (!x == id && !seen.contains x) := by
        intro x
        rw [List.contains_cons, Bool.not_or]
      rw [if_neg Bool.false_ne_true, firsts_eq_eraseDups, List.filter_cons, hid,
        if_pos Bool.not_false, List.eraseDups_cons, List.filter_filter]
      simp only [hnew]

theorem firsts_nil (ids : List String) : firsts [] ids = ids.eraseDups := by
  rw [firsts_eq_eraseDups, List.filter_eq_self.mpr]
  intro id _
  rfl

/-- The first nodes are those of the first ids. -/
theorem map_id_firstNodes : ∀ (seen : List String) (nodes : List Node),
    (firstNodes seen nodes).map (·.id) = firsts seen (nodes.map (·.id))
  | _, [] => rfl
  | seen, node :: rest => by
    rw [firstNodes, List.map_cons, firsts]
    split
    · exact map_id_firstNodes seen rest
    · rw [List.map_cons, map_id_firstNodes]

theorem nodup_firsts : ∀ seen ids : List String, (firsts seen ids).Nodup
  | _, [] => List.nodup_nil
  | seen, id :: rest => by
    unfold firsts
    split
    · exact nodup_firsts seen rest
    · refine List.nodup_cons.mpr ⟨fun hid => ?_, nodup_firsts _ rest⟩
      exact (mem_firsts.mp hid).2 List.mem_cons_self

/-- Items that stay apart under a map are repeated where their values are. -/
theorem eraseDups_map {α β : Type} [BEq α] [LawfulBEq α] [BEq β] [LawfulBEq β] {f : α → β} :
    ∀ {l : List α}, (∀ a ∈ l, ∀ b ∈ l, f a = f b → a = b) →
      (l.map f).eraseDups = l.eraseDups.map f
  | [], _ => rfl
  | a :: rest, h => by
    have hsame : rest.filter ((fun b => !b == f a) ∘ f) = rest.filter fun b => !b == a := by
      refine List.filter_congr fun b hb => ?_
      have hiff : f b = f a ↔ b = a :=
        ⟨h b (List.mem_cons_of_mem _ hb) a List.mem_cons_self, congrArg f⟩
      rw [Function.comp_apply, Bool.not_inj_iff, Bool.eq_iff_iff, beq_iff_eq, beq_iff_eq, hiff]
    rw [List.map_cons, List.eraseDups_cons, List.eraseDups_cons, List.map_cons,
      List.filter_map, hsame, eraseDups_map]
    intro b hb c hc
    exact h b (List.mem_cons_of_mem _ (List.mem_filter.mp hb).1) c
      (List.mem_cons_of_mem _ (List.mem_filter.mp hc).1)
termination_by l => l.length
decreasing_by exact Nat.lt_succ_of_le (List.length_filter_le _ _)

/-! ## Numbered nodes and edges -/

/-- A connection between numbered nodes. -/
structure Edge where
  source : Nat
  target : Nat
  connection : Connection

/-- Nodes and edges, whose numbers are their places, and for each node the
numbers of the edges at it, the newest first. -/
structure Index where
  nodes : List Node
  edges : List Edge
  leaving : Nat → List Nat
  entering : Nat → List Nat

namespace Index

def empty : Index where
  nodes := []
  edges := []
  leaving := fun _ => []
  entering := fun _ => []

/-- The number of an id. -/
def number? (g : Index) (id : String) : Option Nat :=
  g.nodes.findIdx? fun node => node.id == id

/-- The id of a number. -/
def id? (g : Index) (i : Nat) : Option String :=
  g.nodes[i]?.map (·.id)

/-- A node gets the next number, unless its id has one. -/
def addNode (g : Index) (node : Node) : Index :=
  if (g.number? node.id).isSome then g else { g with nodes := g.nodes ++ [node] }

/-- A connection gets the next number, if both its ends have one. -/
def addConnection (g : Index) (c : Connection) : Index :=
  match g.number? c.source, g.number? c.target with
  | some source, some target =>
    let number := g.edges.length
    { g with
      edges := g.edges ++ [⟨source, target, c⟩]
      leaving := Function.update g.leaving source (number :: g.leaving source)
      entering := Function.update g.entering target (number :: g.entering target) }
  | _, _ => g

/-- The index of a workflow. -/
def build (w : Workflow) : Index :=
  w.connections.foldl addConnection (w.nodes.foldl addNode empty)

/-- The numbers of the nodes that no edge leads to. -/
def starts (g : Index) : List Nat :=
  (List.range g.nodes.length).filter fun i => (g.entering i).isEmpty

/-- The nodes that the edges which are followed lead to, each once, in the
order of the edges. -/
def via (g : Index) (routing : Routing) (i : Nat) : List Nat :=
  let edges := (g.leaving i).filterMap fun k => g.edges[k]?.map fun e => (e, k)
  let followed := edges.filter fun p => routing.follows p.1.connection
  let sorted := (followed.map fun p => (p.2, p.1.target)).mergeSort fun a b => a.1 ≤ b.1
  (sorted.map (·.2)).eraseDups

/-- The nodes and connections that were added. -/
def toGraph (g : Index) : Graph where
  nodes := g.nodes
  connections := g.edges.map (·.connection)

/-! ## Numbers -/

/-- The ids of the nodes are distinct. -/
def Distinct (g : Index) : Prop :=
  (g.nodes.map (·.id)).Nodup

/-- An id is that of its number, and of no other one. -/
theorem Distinct.number?_eq_some {g : Index} (h : g.Distinct) {id : String} {i : Nat} :
    g.number? id = some i ↔ g.id? i = some id := by
  unfold number? id?
  rw [List.findIdx?_eq_some_iff_getElem]
  constructor
  · rintro ⟨hi, hid, -⟩
    rw [List.getElem?_eq_getElem hi, Option.map_some, beq_iff_eq.mp hid]
  · intro hid
    obtain ⟨node, hnode, rfl⟩ := Option.map_eq_some_iff.mp hid
    obtain ⟨hi, rfl⟩ := List.getElem?_eq_some_iff.mp hnode
    refine ⟨hi, beq_self_eq_true _, fun j hji hj => ?_⟩
    refine List.pairwise_iff_getElem.mp h j i (by simpa using Nat.lt_trans hji hi)
      (by simpa using hi) hji ?_
    simpa using hj

/-- Two ids have the same number only if they are the same. -/
theorem Distinct.number_inj {g : Index} (h : g.Distinct) {id id' : String} {i i' : Nat}
    (hi : g.number? id = some i) (hi' : g.number? id' = some i') : i = i' ↔ id = id' := by
  constructor
  · rintro rfl
    exact Option.some.inj ((h.number?_eq_some.mp hi).symm.trans (h.number?_eq_some.mp hi'))
  · rintro rfl
    exact Option.some.inj (hi.symm.trans hi')

/-! ## Building -/

/-- The edges at a node, with their numbers, in order. -/
def edgesAt (end_ : Edge → Nat) (edges : List Edge) (i : Nat) : List (Edge × Nat) :=
  edges.zipIdx.filter fun p => end_ p.1 == i

/-- An index whose parts agree. -/
structure Sound (g : Index) : Prop where
  distinct : g.Distinct
  source : ∀ e ∈ g.edges, g.number? e.connection.source = some e.source
  target : ∀ e ∈ g.edges, g.number? e.connection.target = some e.target
  leaving : ∀ i, g.leaving i = ((edgesAt (·.source) g.edges i).map (·.2)).reverse
  entering : ∀ i, g.entering i = ((edgesAt (·.target) g.edges i).map (·.2)).reverse

/-- The newest edge is put in front of those that were at its node. -/
theorem update_edgesAt {end_ : Edge → Nat} {edges : List Edge} {kept : Nat → List Nat}
    (h : ∀ i, kept i = ((edgesAt end_ edges i).map (·.2)).reverse) (e : Edge) (i : Nat) :
    Function.update kept (end_ e) (edges.length :: kept (end_ e)) i =
      ((edgesAt end_ (edges ++ [e]) i).map (·.2)).reverse := by
  have hnew : edgesAt end_ (edges ++ [e]) i =
      edgesAt end_ edges i ++ [(e, edges.length)].filter fun p => end_ p.1 == i := by
    unfold edgesAt
    rw [List.zipIdx_append, List.filter_append, Nat.zero_add]
    rfl
  rw [hnew]
  by_cases hi : end_ e = i
  · subst hi
    simp [h]
  · simp [hi, Ne.symm hi, h]

/-- A connection whose ends have numbers is added. -/
theorem addConnection_eq {g : Index} {c : Connection} {source target : Nat}
    (hs : g.number? c.source = some source) (ht : g.number? c.target = some target) :
    g.addConnection c =
      { g with
        edges := g.edges ++ [⟨source, target, c⟩]
        leaving := Function.update g.leaving source (g.edges.length :: g.leaving source)
        entering := Function.update g.entering target (g.edges.length :: g.entering target) } := by
  simp [addConnection, hs, ht]

/-- Every other one is left out. -/
theorem addConnection_eq_self {g : Index} {c : Connection}
    (h : g.number? c.source = none ∨ g.number? c.target = none) : g.addConnection c = g := by
  rcases h with h | h
  · simp [addConnection, h]
  · cases hs : g.number? c.source <;> simp [addConnection, hs, h]

theorem ends_cases (g : Index) (c : Connection) :
    (∃ source target, g.number? c.source = some source ∧ g.number? c.target = some target) ∨
      g.number? c.source = none ∨ g.number? c.target = none := by
  cases hs : g.number? c.source with
  | none => exact .inr (.inl rfl)
  | some source =>
    cases ht : g.number? c.target with
    | none => exact .inr (.inr rfl)
    | some target => exact .inl ⟨source, target, rfl, rfl⟩

theorem Sound.addConnection {g : Index} (h : g.Sound) (c : Connection) :
    (g.addConnection c).Sound := by
  rcases g.ends_cases c with ⟨source, target, hs, ht⟩ | hnone
  · rw [addConnection_eq hs ht]
    refine ⟨h.distinct, fun e he => ?_, fun e he => ?_, ?_, ?_⟩
    · rcases List.mem_append.mp he with he | he
      · exact h.source e he
      · obtain rfl := List.mem_singleton.mp he
        exact hs
    · rcases List.mem_append.mp he with he | he
      · exact h.target e he
      · obtain rfl := List.mem_singleton.mp he
        exact ht
    · exact update_edgesAt h.leaving ⟨source, target, c⟩
    · exact update_edgesAt h.entering ⟨source, target, c⟩
  · rw [addConnection_eq_self hnone]
    exact h

/-- An id has a number if it is that of a node. -/
theorem number?_isSome (g : Index) (id : String) :
    (g.number? id).isSome = g.nodes.any fun node => node.id == id :=
  List.findIdx?_isSome

/-- The nodes that are added are the first ones of their ids. -/
theorem foldl_addNode (nodes : List Node) : ∀ (g : Index) (seen : List String),
    (∀ id, g.nodes.any (fun node => node.id == id) = seen.contains id) →
      nodes.foldl addNode g = { g with nodes := g.nodes ++ firstNodes seen nodes } := by
  induction nodes with
  | nil =>
    intro g seen _
    simp [firstNodes]
  | cons node rest ih =>
    intro g seen hseen
    rw [List.foldl_cons, firstNodes, addNode, number?_isSome, hseen]
    cases hid : seen.contains node.id with
    | true => exact ih g seen hseen
    | false =>
      rw [if_neg Bool.false_ne_true, if_neg Bool.false_ne_true, ih _ (node.id :: seen)]
      · simp
      · intro id
        rw [List.any_append, hseen, List.contains_cons, Bool.or_comm, List.any_cons, List.any_nil,
          Bool.or_false, BEq.comm]

/-- Adding a connection changes no node. -/
@[simp] theorem addConnection_nodes (g : Index) (c : Connection) :
    (g.addConnection c).nodes = g.nodes := by
  rcases g.ends_cases c with ⟨source, target, hs, ht⟩ | hnone
  · rw [addConnection_eq hs ht]
  · rw [addConnection_eq_self hnone]

@[simp] theorem number?_addConnection (g : Index) (c : Connection) :
    (g.addConnection c).number? = g.number? := by
  funext id
  rw [number?, number?, addConnection_nodes]

theorem foldl_addConnection_nodes (connections : List Connection) : ∀ g : Index,
    (connections.foldl addConnection g).nodes = g.nodes := by
  induction connections with
  | nil => exact fun _ => rfl
  | cons c rest ih =>
    intro g
    rw [List.foldl_cons, ih, addConnection_nodes]

/-- The connections that are added are those between numbered nodes. -/
theorem foldl_addConnection_edges (connections : List Connection) : ∀ g : Index,
    (connections.foldl addConnection g).edges.map (·.connection) =
      g.edges.map (·.connection) ++ connections.filter fun c =>
        (g.number? c.source).isSome && (g.number? c.target).isSome := by
  induction connections with
  | nil =>
    intro g
    simp
  | cons c rest ih =>
    intro g
    rw [List.foldl_cons, ih, List.filter_cons, number?_addConnection]
    rcases g.ends_cases c with ⟨source, target, hs, ht⟩ | hnone
    · rw [addConnection_eq hs ht]
      simp [hs, ht]
    · rw [addConnection_eq_self hnone]
      rcases hnone with hnone | hnone <;> simp [hnone]

theorem Sound.foldl_addConnection {g : Index} (h : g.Sound) (connections : List Connection) :
    (connections.foldl Index.addConnection g).Sound := by
  induction connections generalizing g with
  | nil => exact h
  | cons c rest ih => exact ih (h.addConnection c)

/-- The nodes of a workflow, before its connections are added. -/
theorem addNodes_eq (w : Workflow) :
    w.nodes.foldl addNode empty = { empty with nodes := firstNodes [] w.nodes } :=
  foldl_addNode w.nodes empty [] fun _ => rfl

theorem sound_build (w : Workflow) : (build w).Sound := by
  refine Sound.foldl_addConnection ?_ w.connections
  rw [addNodes_eq]
  refine ⟨?_, fun e he => absurd he List.not_mem_nil, fun e he => absurd he List.not_mem_nil,
    fun i => rfl, fun i => rfl⟩
  change ((firstNodes [] w.nodes).map (·.id)).Nodup
  rw [map_id_firstNodes]
  exact nodup_firsts [] _

/-- The ids that get numbers are the declared ones. -/
theorem isSome_number?_addNodes (w : Workflow) (id : String) :
    ((w.nodes.foldl addNode empty).number? id).isSome = w.declares id := by
  have hmem : id ∈ (firstNodes [] w.nodes).map (·.id) ↔ id ∈ w.nodes.map (·.id) := by
    rw [map_id_firstNodes, mem_firsts]
    exact and_iff_left List.not_mem_nil
  rw [number?_isSome, addNodes_eq, Workflow.declares, Bool.eq_iff_iff]
  simpa [empty] using hmem

theorem exists_number?_build {w : Workflow} {id : String} :
    (∃ i, (build w).number? id = some i) ↔ w.declares id = true := by
  rw [← isSome_number?_addNodes, ← Option.isSome_iff_exists, build, number?,
    foldl_addConnection_nodes]
  rfl

/-- **The index of a workflow has the nodes and connections of its graph.** -/
theorem toGraph_build (w : Workflow) : (build w).toGraph = Graph.ofWorkflow w := by
  unfold toGraph build Graph.ofWorkflow
  rw [foldl_addConnection_nodes, foldl_addConnection_edges]
  simp only [isSome_number?_addNodes]
  rw [addNodes_eq]
  rfl

/-! ## Following edges -/

/-- The edges that leave a node, as its numbers find them. -/
theorem Sound.filterMap_leaving {g : Index} (h : g.Sound) (i : Nat) :
    ((g.leaving i).filterMap fun k => g.edges[k]?.map fun e => (e, k)) =
      (edgesAt (·.source) g.edges i).reverse := by
  rw [h.leaving, List.filterMap_reverse, List.filterMap_map]
  congr 1
  refine (List.filterMap_congr fun p hp => ?_).trans List.filterMap_some
  have hedge := List.mem_zipIdx_iff_getElem?.mp (List.mem_filter.mp hp).1
  rw [Function.comp_apply, hedge]
  rfl

/-- Sorting by number undoes a reversal. -/
theorem mergeSort_reverse {α : Type} {l : List (Nat × α)}
    (h : (l.map (·.1)).Pairwise (· < ·)) : (l.reverse.mergeSort fun a b => a.1 ≤ b.1) = l := by
  have hperm : (l.reverse.mergeSort fun a b => a.1 ≤ b.1).Perm l :=
    (List.mergeSort_perm _ _).trans l.reverse_perm
  have hdistinct : (l.map (·.1)).Nodup := h.imp Nat.ne_of_lt
  have hsorted : (l.reverse.mergeSort fun a b => a.1 ≤ b.1).Pairwise fun a b => a.1 ≤ b.1 := by
    refine (List.pairwise_mergeSort ?_ ?_ l.reverse).imp of_decide_eq_true
    · intro a b c hab hbc
      exact decide_eq_true (Nat.le_trans (of_decide_eq_true hab) (of_decide_eq_true hbc))
    · intro a b
      rw [Bool.or_eq_true, decide_eq_true_iff, decide_eq_true_iff]
      exact Nat.le_total a.1 b.1
  refine List.Perm.eq_of_pairwise (fun a b ha hb hab hba => ?_) hsorted
    ((List.pairwise_map.mp h).imp Nat.le_of_lt) hperm
  exact List.inj_on_of_nodup_map hdistinct (hperm.mem_iff.mp ha) hb (Nat.le_antisymm hab hba)

/-- The nodes that are reached are listed in the order of the edges. -/
theorem Sound.via_eq {g : Index} (h : g.Sound) (routing : Routing) (i : Nat) :
    g.via routing i =
      ((g.edges.filter fun e => e.source == i && routing.follows e.connection).map
        (·.target)).eraseDups := by
  have hincreasing : ((edgesAt (·.source) g.edges i).filter fun p =>
      routing.follows p.1.connection).Sublist g.edges.zipIdx :=
    List.filter_sublist.trans List.filter_sublist
  have hnumbers : (g.edges.zipIdx.map (·.2)).Pairwise (· < ·) := by
    rw [List.zipIdx_map_snd]
    exact List.pairwise_lt_range'
  unfold via
  rw [h.filterMap_leaving]
  dsimp only
  rw [List.filter_reverse, List.map_reverse, mergeSort_reverse, List.map_map]
  · congr 1
    unfold edgesAt
    rw [List.filter_filter]
    conv_rhs => rw [← List.zipIdx_map_fst 0 g.edges, List.filter_map, List.map_map]
    rw [List.filter_congr fun p _ => Bool.and_comm _ _]
    rfl
  · rw [List.map_map]
    exact hnumbers.sublist (hincreasing.map _)

/-! ## Agreement -/

/-- An edge lies between the numbers of its ends. -/
theorem Sound.id?_ends {g : Index} (h : g.Sound) {e : Edge} (he : e ∈ g.edges) :
    g.id? e.source = some e.connection.source ∧ g.id? e.target = some e.connection.target :=
  ⟨h.distinct.number?_eq_some.mp (h.source e he), h.distinct.number?_eq_some.mp (h.target e he)⟩

/-- **An index follows the same connections as its graph, in the same order.** -/
theorem Sound.map_via {g : Index} (h : g.Sound) {id : String} {i : Nat}
    (hi : g.number? id = some i) (routing : Routing) :
    (g.via routing i).map g.id? = (g.toGraph.next routing id).map some := by
  have hedges : (g.edges.filter fun e => e.source == i && routing.follows e.connection) =
      g.edges.filter ((fun c => c.source == id && routing.follows c) ∘ Edge.connection) := by
    refine List.filter_congr fun e he => ?_
    have hsource : (e.source == i) = (e.connection.source == id) := by
      rw [Bool.eq_iff_iff, beq_iff_eq, beq_iff_eq, h.distinct.number_inj (h.source e he) hi]
    rw [hsource]
    rfl
  have hids : ∀ e ∈ g.edges, g.id? e.target = some e.connection.target :=
    fun e he => (h.id?_ends he).2
  rw [h.via_eq, hedges, Graph.next, firsts_nil, ← eraseDups_map, ← eraseDups_map]
  · unfold toGraph
    rw [List.filter_map, List.map_map, List.map_map, List.map_map]
    congr 1
    exact List.map_congr_left fun e he => hids e (List.mem_filter.mp he).1
  · exact fun _ _ _ _ heq => Option.some.inj heq
  · intro a ha b hb heq
    obtain ⟨e, he, rfl⟩ := List.mem_map.mp ha
    have htarget := hids e (List.mem_filter.mp he).1
    have hnumber := h.distinct.number?_eq_some.mpr htarget
    rw [heq] at htarget
    rw [h.distinct.number?_eq_some.mpr htarget] at hnumber
    exact (Option.some.inj hnumber).symm

/-- No edge leads to a node if no connection leads to its id. -/
theorem Sound.isEmpty_entering {g : Index} (h : g.Sound) {id : String} {i : Nat}
    (hi : g.id? i = some id) :
    (g.entering i).isEmpty = !g.toGraph.connections.any fun c => c.target == id := by
  have hnone : g.entering i = [] ↔ ∀ e ∈ g.edges, e.target ≠ i := by
    rw [h.entering, List.reverse_eq_nil_iff, List.map_eq_nil_iff, edgesAt, List.filter_eq_nil_iff]
    conv_rhs => rw [← List.zipIdx_map_fst 0 g.edges, List.forall_mem_map]
    simp only [beq_iff_eq, ne_eq]
  have hnumber := h.distinct.number?_eq_some.mpr hi
  rw [Bool.eq_iff_iff, List.isEmpty_iff, hnone, Bool.not_eq_true', List.any_eq_false]
  unfold toGraph
  rw [List.forall_mem_map]
  refine forall₂_congr fun e he => ?_
  rw [beq_iff_eq, ne_eq, h.distinct.number_inj (h.target e he) hnumber]

/-- **And starts at the same nodes.** -/
theorem Sound.map_starts {g : Index} (h : g.Sound) :
    g.starts.map g.id? = g.toGraph.starts.map some := by
  have hall : (List.range g.nodes.length).map g.id? = (g.nodes.map (·.id)).map some := by
    refine List.ext_getElem (by simp) fun i hi _ => ?_
    have hnode : i < g.nodes.length := by simpa using hi
    simp [id?, hnode]
  let alone : Option String → Bool := fun id? =>
    id?.all fun id => !g.toGraph.connections.any fun c => c.target == id
  have hstarts : g.starts = (List.range g.nodes.length).filter (alone ∘ g.id?) := by
    refine List.filter_congr fun i hi => ?_
    obtain ⟨id, hid⟩ : ∃ id, g.id? i = some id := by
      rw [List.mem_range] at hi
      exact ⟨g.nodes[i].id, by simp [id?, hi]⟩
    rw [Function.comp_apply, hid, h.isEmpty_entering hid]
    rfl
  rw [hstarts, ← List.filter_map, hall, List.filter_map]
  rfl

end Index

end Automation
