/-
Automation.Proofs.Workflow.RoutingTheorems — where a run goes on, and where
it begins.

After a node a run goes on at the targets of the connections that are
followed: those that are declared, each once, in the order in which they first
occur (`Graph.next_ofWorkflow`). It begins at the nodes that no connection
from a declared node leads to (`Graph.starts_ofWorkflow`). Following all
connections agrees with the look-up of successors in the lists of the workflow
(`Graph.next_all`), and in a valid workflow the start nodes are those that the
lists tell (`Graph.filterMap_starts`). From them every node is reached, since
going back along connections goes down in a ranking (`Workflow.reached`).

All of this holds of the graph with numbered nodes and edges as well, which
agrees with the one that is made of lists. Hence `routes_exact`.
-/
import Mathlib.Logic.Relation
import Automation.Proofs.Workflow.IndexTheorems
import Automation.Proofs.Workflow.ValidationTheorems

namespace Automation

/-- What is new in a list comes in the order in which it first occurs. -/
theorem pairwise_firsts : ∀ seen ids : List String,
    (firsts seen ids).Pairwise fun a b => ids.idxOf a < ids.idxOf b
  | _, [] => .nil
  | seen, id :: rest => by
    have hlater : ∀ seen' : List String, id ∈ seen' →
        (firsts seen' rest).Pairwise fun a b =>
          (id :: rest).idxOf a < (id :: rest).idxOf b := by
      intro seen' hid
      refine List.Pairwise.imp_of_mem (fun {a b} ha hb hab => ?_) (pairwise_firsts seen' rest)
      have hne : ∀ x ∈ firsts seen' rest, id ≠ x := by
        rintro x hx rfl
        exact (mem_firsts.mp hx).2 hid
      rw [List.idxOf_cons_ne _ (hne a ha), List.idxOf_cons_ne _ (hne b hb)]
      exact Nat.succ_lt_succ hab
    unfold firsts
    split
    · next hid => exact hlater seen (List.contains_iff_mem.mp hid)
    · refine List.pairwise_cons.mpr ⟨fun x hx => ?_, hlater _ List.mem_cons_self⟩
      have hne : id ≠ x := by
        rintro rfl
        exact (mem_firsts.mp hx).2 List.mem_cons_self
      rw [List.idxOf_cons_self, List.idxOf_cons_ne _ hne]
      exact Nat.succ_pos _

/-- The first node of an id is kept, unless the id has been seen. -/
theorem find?_firstNodes {id : String} : ∀ {seen : List String} (nodes : List Node), id ∉ seen →
    ((firstNodes seen nodes).find? fun node => node.id == id) =
      nodes.find? fun node => node.id == id
  | _, [], _ => rfl
  | seen, node :: rest, hseen => by
    unfold firstNodes
    by_cases hid : node.id = id
    · rw [if_neg (by simpa [hid] using hseen), List.find?_cons, List.find?_cons,
        beq_iff_eq.mpr hid]
    · have hskip : (node.id == id) = false := beq_eq_false_iff_ne.mpr hid
      rw [List.find?_cons, hskip]
      split
      · exact find?_firstNodes rest hseen
      · rw [List.find?_cons, hskip]
        refine find?_firstNodes rest fun hmem => ?_
        exact (List.mem_cons.mp hmem).elim (fun heq => hid heq.symm) hseen

namespace Workflow

/-- The targets of the connections that leave a node and are followed, in
order, as far as they are declared. -/
def followed (w : Workflow) (routing : Routing) (id : String) : List String :=
  (w.connections.filter fun c =>
    c.source == id && routing.follows c && w.declares c.target).map (·.target)

/-- A connection leads from one id to the other. -/
def Connects (w : Workflow) (source target : String) : Prop :=
  ∃ c ∈ w.connections, c.source = source ∧ c.target = target

theorem node?_isSome (w : Workflow) (id : String) : (w.node? id).isSome = w.declares id := by
  rw [Bool.eq_iff_iff, node?, List.find?_isSome, declares, List.any_eq_true]

/-- Where ids are distinct, each node is that of its id. -/
theorem node?_of_mem {w : Workflow} (h : (w.nodes.map (·.id)).Nodup) {node : Node}
    (hnode : node ∈ w.nodes) : w.node? node.id = some node := by
  have hsome : (w.node? node.id).isSome = true := by
    rw [node?_isSome]
    exact declares_iff.mpr ⟨node, hnode, rfl⟩
  obtain ⟨found, hfound⟩ := Option.isSome_iff_exists.mp hsome
  have hid : found.id = node.id := by simpa using List.find?_some hfound
  rw [hfound, List.inj_on_of_nodup_map h (List.mem_of_find?_eq_some hfound) hnode hid]

/-- The targets of all connections of a node are the ids of its successors. -/
theorem map_id_successors (w : Workflow) (id : String) :
    (w.successors id).map (·.id) = w.followed .all id := by
  have htargets : ∀ connections : List Connection,
      (connections.filterMap fun c => w.node? c.target).map (·.id) =
        (connections.filter fun c => w.declares c.target).map (·.target) := by
    intro connections
    induction connections with
    | nil => rfl
    | cons c rest ih =>
      rw [List.filterMap_cons, List.filter_cons, ← node?_isSome]
      cases hnode : w.node? c.target with
      | none => exact ih
      | some node =>
        have hid : node.id = c.target := by simpa using List.find?_some hnode
        change node.id :: _ = c.target :: _
        rw [hid, ih]
  rw [successors, htargets, List.filter_filter, followed]
  congr 1
  refine List.filter_congr fun c _ => ?_
  rw [Routing.follows, Bool.and_true, Bool.and_comm]

end Workflow

namespace Graph

/-! ## Where a run goes on -/

/-- A graph knows the nodes of its workflow. -/
theorem node?_ofWorkflow (w : Workflow) : (ofWorkflow w).node? = w.node? :=
  funext fun _ => find?_firstNodes w.nodes List.not_mem_nil

/-- A run goes on at the targets that are declared, each where it first occurs. -/
theorem next_ofWorkflow {w : Workflow} {id : String} (h : w.declares id = true)
    (routing : Routing) : (ofWorkflow w).next routing id = firsts [] (w.followed routing id) := by
  unfold next ofWorkflow Workflow.followed
  rw [List.filter_filter]
  congr 2
  refine List.filter_congr fun c _ => ?_
  by_cases hsource : c.source = id
  · rw [hsource, h, Bool.true_and]
  · rw [beq_eq_false_iff_ne.mpr hsource]
    rfl

/-- Going on along all connections is going on at the successors. -/
theorem next_all {w : Workflow} {id : String} (h : w.declares id = true) :
    (ofWorkflow w).next .all id = ((w.successors id).map (·.id)).eraseDups := by
  rw [next_ofWorkflow h, firsts_nil, w.map_id_successors]

/-! ## Where a run begins -/

/-- A run begins at the ids that no connection from a declared node leads to. -/
theorem starts_ofWorkflow (w : Workflow) :
    (ofWorkflow w).starts = (w.nodes.map (·.id)).eraseDups.filter fun id =>
      !w.connections.any fun c => w.declares c.source && c.target == id := by
  unfold starts ofWorkflow
  dsimp only
  rw [map_id_firstNodes, firsts_nil]
  refine List.filter_congr fun id hid => ?_
  have hdeclared : w.declares id = true := by
    rw [List.mem_eraseDups, List.mem_map] at hid
    exact Workflow.declares_iff.mpr hid
  rw [List.any_filter]
  congr 2
  funext c
  by_cases htarget : c.target = id
  · rw [htarget, hdeclared, Bool.and_true]
  · rw [beq_eq_false_iff_ne.mpr htarget, Bool.and_false, Bool.and_false]

/-- A valid workflow starts at the nodes that its lists tell. -/
theorem filterMap_starts {w : Workflow} (h : w.isValid = true) :
    (ofWorkflow w).starts.filterMap w.node? = w.startNodes := by
  obtain ⟨-, -, hnodup, -, -⟩ := Workflow.isValid_iff.mp h
  rw [ofWorkflow_of_isValid h]
  unfold starts Workflow.startNodes
  rw [List.filter_map, List.filterMap_map]
  refine (List.filterMap_congr fun node hmem => ?_).trans List.filterMap_some
  exact Workflow.node?_of_mem hnodup (List.mem_filter.mp hmem).1

end Graph

/-- Every node of a valid workflow is reached from a start node. -/
theorem Workflow.reached {w : Workflow} (hclosed : w.IsClosed) (hacyclic : w.IsAcyclic) :
    ∀ node ∈ w.nodes, ∃ start ∈ w.startNodes,
      Relation.ReflTransGen w.Connects start.id node.id := by
  obtain ⟨rank, hrank⟩ := hacyclic
  intro node hnode
  -- by induction on the rank: a node is a start node, or a connection from below leads to it
  induction hn : rank node.id using Nat.strong_induction_on generalizing node with
  | _ n ih =>
    subst hn
    cases hstart : w.connections.any fun c => c.target == node.id with
    | false =>
      exact ⟨node, List.mem_filter.mpr ⟨hnode, by rw [hstart]; rfl⟩, .refl⟩
    | true =>
      obtain ⟨c, hc, htarget⟩ := List.any_eq_true.mp hstart
      have htarget : c.target = node.id := beq_iff_eq.mp htarget
      obtain ⟨⟨below, hbelow, hsource⟩, -⟩ := hclosed c hc
      have hlt : rank below.id < rank node.id := by
        rw [hsource, ← htarget]
        exact hrank c hc
      obtain ⟨start, hmem, hpath⟩ := ih _ hlt below hbelow rfl
      exact ⟨start, hmem, hpath.tail ⟨c, hc, hsource.symm, htarget⟩⟩

/-- **Where a run goes on and where it begins.** After a declared node, a run
goes on at the declared targets of its connections that are followed, no
others, each once, and in the order in which they first occur among those
connections. If all are followed these are the ids of the successors in the
lists of the workflow, without repetitions. A run begins at the ids of nodes
that no connection from a declared node leads to, in order. If the workflow is
valid, these are the start nodes in its lists, and every node is reached from
one of them along connections. The graph with numbered nodes and edges goes on
and begins at the same nodes. -/
theorem routes_exact (w : Workflow) :
    (∀ id, w.declares id = true →
      (∀ routing : Routing, ((Graph.ofWorkflow w).next routing id).Nodup ∧
        (∀ target, target ∈ (Graph.ofWorkflow w).next routing id ↔
          ∃ c ∈ w.connections, c.source = id ∧ routing.follows c = true ∧
            w.declares c.target = true ∧ c.target = target) ∧
        (((Graph.ofWorkflow w).next routing id).Pairwise fun a b =>
          (w.followed routing id).idxOf a < (w.followed routing id).idxOf b)) ∧
      (Graph.ofWorkflow w).next .all id = ((w.successors id).map (·.id)).eraseDups) ∧
    (Graph.ofWorkflow w).node? = w.node? ∧
    ((Graph.ofWorkflow w).starts = (w.nodes.map (·.id)).eraseDups.filter fun id =>
      !w.connections.any fun c => w.declares c.source && c.target == id) ∧
    (w.isValid = true →
      (Graph.ofWorkflow w).starts.filterMap (Graph.ofWorkflow w).node? = w.startNodes ∧
      ∀ node ∈ w.nodes, ∃ start ∈ w.startNodes,
        Relation.ReflTransGen w.Connects start.id node.id) ∧
    (∀ id, w.declares id = true → ∃ i, (Index.build w).number? id = some i ∧
      ∀ routing, ((Index.build w).via routing i).map (Index.build w).id? =
        ((Graph.ofWorkflow w).next routing id).map some) ∧
    (Index.build w).starts.map (Index.build w).id? = (Graph.ofWorkflow w).starts.map some := by
  have hsound := Index.sound_build w
  refine ⟨fun id hid => ⟨fun routing => ?_, Graph.next_all hid⟩, Graph.node?_ofWorkflow w,
    Graph.starts_ofWorkflow w, fun hvalid => ?_, fun id hid => ?_, ?_⟩
  · rw [Graph.next_ofWorkflow hid]
    refine ⟨nodup_firsts _ _, fun target => ?_, pairwise_firsts _ _⟩
    simp only [mem_firsts, Workflow.followed, List.mem_map, List.mem_filter, Bool.and_eq_true,
      beq_iff_eq, List.not_mem_nil, not_false_eq_true, and_true, and_assoc]
  · obtain ⟨-, -, -, hclosed, hacyclic⟩ := Workflow.isValid_iff_isAcyclic.mp hvalid
    rw [Graph.node?_ofWorkflow]
    exact ⟨Graph.filterMap_starts hvalid, Workflow.reached hclosed hacyclic⟩
  · obtain ⟨i, hi⟩ := Index.exists_number?_build.mpr hid
    refine ⟨i, hi, fun routing => ?_⟩
    rw [hsound.map_via hi, Index.toGraph_build]
  · rw [hsound.map_starts, Index.toGraph_build]

/-- A node with three connections: two to one node, and one by a port to another. -/
def Workflow.fan : Workflow :=
  { (default : Workflow) with
    name := "fan"
    nodes := [⟨"a", .trigger, none, .null, [], []⟩, ⟨"b", .trigger, none, .null, [], []⟩,
      ⟨"c", .trigger, none, .null, [], []⟩]
    connections := [⟨"1", "a", "c", none, none⟩, ⟨"2", "a", "b", some "yes", none⟩,
      ⟨"3", "a", "c", none, none⟩] }

/-- Parallel connections count once, and everything is reached from the one start node. -/
theorem routes_exact_fan :
    Workflow.fan.isValid = true ∧ Workflow.fan.declares "a" = true ∧
    (Graph.ofWorkflow .fan).next .all "a" = ["c", "b"] ∧
    "b" ∈ (Graph.ofWorkflow .fan).next (.port "yes" false) "a" ∧
    (∃ i, (Index.build .fan).number? "a" = some i ∧
      ((Index.build .fan).via .all i).map (Index.build .fan).id? = [some "c", some "b"]) ∧
    ∀ node ∈ Workflow.fan.nodes, Relation.ReflTransGen Workflow.fan.Connects "a" node.id := by
  have hvalid : Workflow.fan.isValid = true := by decide
  have hdeclared : Workflow.fan.declares "a" = true := by decide
  have hnext : (Graph.ofWorkflow .fan).next .all "a" = ["c", "b"] := by decide
  obtain ⟨hroutes, -, -, hreached, hindex, -⟩ := routes_exact .fan
  refine ⟨hvalid, hdeclared, hnext, ?_, ?_, fun node hnode => ?_⟩
  · exact (((hroutes "a" hdeclared).1 (.port "yes" false)).2.1 "b").mpr
      ⟨⟨"2", "a", "b", some "yes", none⟩, by simp [Workflow.fan], rfl, rfl, rfl, rfl⟩
  · obtain ⟨i, hi, hvia⟩ := hindex "a" hdeclared
    exact ⟨i, hi, (hvia .all).trans (by rw [hnext]; rfl)⟩
  · obtain ⟨start, hstart, hpath⟩ := (hreached hvalid).2 node hnode
    have hfirst : Workflow.fan.startNodes = [⟨"a", .trigger, none, .null, [], []⟩] := rfl
    rw [hfirst, List.mem_singleton] at hstart
    subst hstart
    exact hpath

end Automation
