/-
Automation.Proofs.Engine.EffortTheorems — what it takes to drive a run.

The height of the stack does not tell how long a walk goes on: it grows with
every visit, and a node may lie on it many times over. What every pop lowers is
the `load`, which is the height together with the number of connections from
nodes that are not yet marked. A marked node that is taken off is one less on
the stack; a node that is visited is marked, and its visit puts no more on the
stack than connections leave it. `popAll` is the loop alone, which ends when the
stack is empty or a visit halts, and not for having made visits enough. It takes
no more from the stack than the load that it begins with (`popAll_pops`), and it
is the walk (`popAll_walk`).

`Engine.tally` drives a run by this loop, counts the pops and tells the story,
which has the trials at every node, and they are the calls of executors. No node
is taken twice, as a visit marks its node (`popAll_keeps`), and the calls for one
node are bounded by its attempts. `drive_ends` puts this together.
-/
import Automation.Proofs.Engine.CallTheorems
import Automation.Proofs.Engine.RetriedTheorems
import Automation.Proofs.Workflow.ValidationTheorems

namespace Automation

open Automation.Json (Value)
open Process

variable {σ α β ρ : Type}

/-! ## The loop -/

/-- One more pop. -/
def popped (r : α × Nat) : α × Nat :=
  (r.1, r.2 + 1)

/-- Take nodes from the stack until it is empty or a visit halts: pass over
those that are marked, visit the others and put on the stack what the visits
name. What the visits hand on is returned, with the number of nodes that were
taken; there is none if the loop did not end with `fuel` nodes. -/
def popAll (visit : String → α → Process σ (α × Onward ρ)) :
    (fuel : Nat) → (marked stack : List String) → α → Process σ (Option (α × Option ρ) × Nat)
  | _, _, [], a => return (some (a, none), 0)
  | 0, _, _ :: _, _ => return (none, 0)
  | fuel + 1, marked, id :: rest, a =>
    if marked.contains id then popped <$> popAll visit fuel marked rest a
    else do
      let (a, onward) ← visit id a
      match onward with
      | .follow targets =>
        let marked := id :: marked
        let stack := targets.filter (fun t => !marked.contains t) ++ rest
        popped <$> popAll visit fuel marked stack a
      | .halt reason => return (some (a, some reason), 1)

section

variable (visit : String → α → Process σ (α × Onward ρ))

@[simp] theorem popAll_nil (fuel : Nat) (marked : List String) (a : α) :
    popAll visit fuel marked [] a = done (some (a, none), 0) := by
  cases fuel <;> rfl

theorem popAll_marked {marked : List String} {id : String} (h : marked.contains id = true)
    (fuel : Nat) (rest : List String) (a : α) :
    popAll visit (fuel + 1) marked (id :: rest) a =
      popped <$> popAll visit fuel marked rest a := by
  rw [popAll, if_pos h]

theorem popAll_unmarked {marked : List String} {id : String} (h : marked.contains id = false)
    (fuel : Nat) (rest : List String) (a : α) :
    popAll visit (fuel + 1) marked (id :: rest) a =
      visit id a >>= fun (a, onward) =>
        match onward with
        | .follow targets =>
          popped <$> popAll visit fuel (id :: marked)
            (targets.filter (fun t => !(id :: marked).contains t) ++ rest) a
        | .halt reason => done (some (a, some reason), 1) := by
  rw [popAll, if_neg (Bool.eq_false_iff.mp h)]
  rfl

end

/-! ## The load -/

/-- The nodes on the stack, and the connections from nodes without a mark. -/
def load (sources marked stack : List String) : Nat :=
  stack.length + unmarked sources marked

/-- The visit of a node names no more nodes than connections leave it. -/
def Onward.Spreads (sources : List String) (id : String) : Onward ρ → Prop
  | .follow targets => targets.length ≤ sources.count id
  | .halt _ => True

/-- A node that is marked takes its connections out of the load. -/
theorem unmarked_eq_count_add {marked : List String} {id : String}
    (h : marked.contains id = false) (sources : List String) :
    unmarked sources marked = sources.count id + unmarked sources (id :: marked) := by
  induction sources with
  | nil => rfl
  | cons source sources ih =>
    unfold unmarked at ih ⊢
    by_cases hs : source = id
    · rw [hs, List.count_cons_self, List.filter_cons_of_pos (by simpa using h),
        List.filter_cons_of_neg (by simp), List.length_cons, ih]
      omega
    · have hkept : (id :: marked).contains source = marked.contains source := by
        rw [List.contains_cons, beq_eq_false_iff_ne.mpr hs, Bool.false_or]
      rw [List.count_cons_of_ne hs, List.filter_cons, List.filter_cons, hkept]
      split
      · rw [List.length_cons, List.length_cons, ih, Nat.add_assoc]
      · exact ih

/-- A node that is passed over lowers the load. -/
theorem load_passed (sources marked rest : List String) (id : String) :
    load sources marked (id :: rest) = load sources marked rest + 1 := by
  unfold load
  rw [List.length_cons]
  omega

/-- A visit lowers the load. -/
theorem load_visited {sources marked targets : List String} {id : String}
    (h : marked.contains id = false) (ht : targets.length ≤ sources.count id) (rest : List String) :
    load sources (id :: marked)
      (targets.filter (fun t => !(id :: marked).contains t) ++ rest) + 1 ≤
        load sources marked (id :: rest) := by
  have hfilter := List.length_filter_le (fun t => !(id :: marked).contains t) targets
  have hsplit := unmarked_eq_count_add h sources
  unfold load
  rw [List.length_append, List.length_cons]
  omega

section

variable {visit : String → α → Process σ (α × Onward ρ)} {sources : List String}
  (hspreads : ∀ id a, (visit id a).Always fun r => r.2.Spreads sources id)

include hspreads

/-- **The load bounds the pops**, and the loop ends if it is given as many. -/
theorem popAll_pops (fuel : Nat) (marked stack : List String) (a : α) :
    (popAll visit fuel marked stack a).Always fun r => r.2 ≤ load sources marked stack ∧
      (load sources marked stack ≤ fuel → r.1.isSome = true) := by
  induction fuel, marked, stack, a using popAll.induct with
  | case1 fuel marked a =>
    rw [popAll_nil]
    exact ⟨Nat.zero_le _, fun _ => rfl⟩
  | case2 marked id rest a =>
    rw [load_passed]
    exact ⟨Nat.zero_le _, nofun⟩
  | case3 fuel marked id rest a h ih =>
    rw [popAll_marked visit h, load_passed]
    refine always_map.mpr (ih.mono ?_)
    rintro ⟨ending, pops⟩ ⟨hpops, hends⟩
    exact ⟨Nat.succ_le_succ hpops, fun hfuel => hends (Nat.le_of_succ_le_succ hfuel)⟩
  | case4 fuel marked id rest a h ih =>
    have h := Bool.eq_false_iff.mpr h
    rw [popAll_unmarked visit h]
    refine (hspreads id a).bind ?_
    rintro ⟨a, onward⟩ hon
    cases onward with
    | halt reason =>
      rw [load_passed]
      exact ⟨Nat.le_add_left 1 _, fun _ => rfl⟩
    | follow targets =>
      have hload := load_visited h hon rest
      refine always_map.mpr ((ih a targets).mono ?_)
      rintro ⟨ending, pops⟩ ⟨hpops, hends⟩
      exact ⟨(Nat.succ_le_succ hpops).trans hload,
        fun hfuel => hends (Nat.le_of_succ_le_succ (hload.trans hfuel))⟩

/-- **The loop is the walk**, if it is given as many pops as its load, and the
walk a visit for every node without a mark. -/
theorem popAll_walk {nodes : List String}
    (hwithin : ∀ id a, (visit id a).Always fun r => r.2.Within nodes) (fuel budget : Nat)
    (marked stack : List String) (a : α) (hs : stack ⊆ nodes)
    (hbudget : unmarked nodes marked ≤ budget) (hload : load sources marked stack ≤ fuel) :
    Prod.fst <$> popAll visit fuel marked stack a =
      some <$> walk visit budget marked stack a := by
  induction fuel, marked, stack, a using popAll.induct generalizing budget with
  | case1 fuel marked a =>
    rw [popAll_nil, walk_nil]
    rfl
  | case2 marked id rest a =>
    rw [load_passed] at hload
    cases hload
  | case3 fuel marked id rest a h ih =>
    rw [load_passed] at hload
    rw [walk_marked visit h, popAll_marked visit h, ← comp_map]
    exact ih budget (List.subset_of_cons_subset hs) hbudget (Nat.le_of_succ_le_succ hload)
  | case4 fuel marked id rest a h ih =>
    have h := Bool.eq_false_iff.mpr h
    have hlt := unmarked_cons_lt (hs List.mem_cons_self) h
    obtain ⟨budget, rfl⟩ : ∃ k, budget = k + 1 := ⟨budget - 1, by omega⟩
    rw [walk_unmarked visit h, popAll_unmarked visit h, map_bind, map_bind]
    refine bind_congr_always ?_ ((hwithin id a).and (hspreads id a))
    rintro ⟨a, onward⟩ ⟨hon, htargets⟩
    cases onward with
    | halt reason => rfl
    | follow targets =>
      have hlower := (load_visited h htargets rest).trans hload
      dsimp only
      rw [← comp_map]
      refine ih a targets budget ?_ (by omega) (Nat.le_of_succ_le_succ hlower)
      refine List.append_subset.mpr ⟨fun x hx => ?_, List.subset_of_cons_subset hs⟩
      exact hon (List.mem_filter.mp hx).1

end

/-- What the visits of nodes without a mark keep, the loop keeps. -/
theorem popAll_keeps {visit : String → α → Process σ (α × Onward ρ)}
    (inv : List String → α → Prop)
    (hvisit : ∀ id marked a, marked.contains id = false → inv marked a →
      (visit id a).Always fun r => inv (id :: marked) r.1)
    (fuel : Nat) (marked stack : List String) (a : α) (ha : inv marked a) :
    (popAll visit fuel marked stack a).Always fun r =>
      ∀ ending ∈ r.1, ∃ marked', inv marked' ending.1 := by
  induction fuel, marked, stack, a using popAll.induct with
  | case1 fuel marked a =>
    rw [popAll_nil]
    rintro ending ⟨⟩
    exact ⟨marked, ha⟩
  | case2 marked id rest a => exact nofun
  | case3 fuel marked id rest a h ih =>
    rw [popAll_marked visit h]
    exact always_map.mpr (ih ha)
  | case4 fuel marked id rest a h ih =>
    have h := Bool.eq_false_iff.mpr h
    rw [popAll_unmarked visit h]
    refine (hvisit id marked a h ha).bind ?_
    rintro ⟨a, onward⟩ ha'
    cases onward with
    | halt reason =>
      rintro ending ⟨⟩
      exact ⟨id :: marked, ha'⟩
    | follow targets => exact always_map.mpr (ih a targets ha')

/-! ## Stories -/

/-- A story of some of the nodes, each of which is taken once at most, with so
many calls at most. -/
structure Story.Spare (nodes : List Node) (most : Nat) (story : Story) : Prop where
  once : (story.map (·.node.id)).Nodup
  nodes : ∀ chapter ∈ story, chapter.node ∈ nodes
  trials : ∀ chapter ∈ story, chapter.trials.length ≤ most

namespace Story.Spare

variable {nodes : List Node} {most : Nat} {story : Story}

theorem nil : Spare nodes most [] where
  once := List.nodup_nil
  nodes _ h := by cases h
  trials _ h := by cases h

theorem snoc (h : story.Spare nodes most) {chapter : Chapter} (hnode : chapter.node ∈ nodes)
    (hnew : chapter.node.id ∉ story.map (·.node.id)) (htrials : chapter.trials.length ≤ most) :
    Spare nodes most (story ++ [chapter]) where
  once := by
    rw [List.map_append, List.nodup_append_comm]
    exact List.nodup_cons.mpr ⟨hnew, h.once⟩
  nodes := by
    intro c hc
    rcases List.mem_append.mp hc with hc | hc
    · exact h.nodes c hc
    · exact List.mem_singleton.mp hc ▸ hnode
  trials := by
    intro c hc
    rcases List.mem_append.mp hc with hc | hc
    · exact h.trials c hc
    · exact List.mem_singleton.mp hc ▸ htrials

/-- There are no more chapters than nodes. -/
theorem length_le (h : story.Spare nodes most) : story.length ≤ nodes.length := by
  have hsubset : story.map (·.node.id) ⊆ nodes.map (·.id) := by
    intro id hid
    obtain ⟨chapter, hchapter, rfl⟩ := List.mem_map.mp hid
    exact List.mem_map.mpr ⟨_, h.nodes chapter hchapter, rfl⟩
  simpa using (h.once.subperm hsubset).length_le

/-- The calls for all nodes are bounded by those for each of them. -/
theorem calls_le (h : story.Spare nodes most) : story.calls ≤ nodes.length * most := by
  have hsum := List.sum_le_card_nsmul (story.map (·.trials.length)) most fun n hn => by
    obtain ⟨chapter, hchapter, rfl⟩ := List.mem_map.mp hn
    exact h.trials chapter hchapter
  rw [← List.length_flatMap, List.length_map] at hsum
  exact hsum.trans (Nat.mul_le_mul_right most h.length_le)

end Story.Spare

/-! ## Visits -/

/-- The connections that are followed are among those that leave a node. -/
theorem Graph.length_next_le (g : Graph) (routing : Routing) (id : String) :
    (g.next routing id).length ≤ (g.connections.map (·.source)).count id := by
  unfold next
  refine (length_firsts_le _ _).trans ?_
  rw [List.length_map, List.count, List.countP_map, List.countP_eq_length_filter]
  refine (List.monotone_filter_right _ fun c hc => ?_).length_le
  exact (Bool.and_eq_true_iff.mp hc).1

namespace Driver

variable (d : Driver)

/-- An executor is called once in an attempt at most. -/
theorem always_tellAttempt (executor : Executor) (node : Node) (run : Run) (log : Logger) :
    (d.tellAttempt executor node run log).Always fun r => r.2.length ≤ 1 := by
  unfold tellAttempt
  refine always_bind _ fun wake => ?_
  cases wake with
  | cancelled => exact Nat.zero_le 1
  | deadline => exact Nat.zero_le 1
  | elapsed =>
    refine always_bind _ fun r => always_bind _ fun _ => always_bind _ fun _ => ?_
    exact Nat.le_refl 1

theorem always_tellAttempts (executor : Executor) (node : Node) (run : Run) (more : Nat) :
    ∀ (number : Nat) (log : Logger),
      (d.tellAttempts executor node run more number log).Always fun r => r.2.length ≤ more + 1 := by
  induction more with
  | zero =>
    intro number log
    exact (d.always_tellAttempt executor node run log).bind fun _ h => h
  | succ more ih =>
    intro number log
    refine (d.always_tellAttempt executor node run log).bind ?_
    rintro ⟨⟨log, verdict⟩, trials⟩ htrials
    have hfew : trials.length ≤ more + 1 + 1 := htrials.trans (Nat.le_add_left 1 _)
    cases verdict with
    | completed output => exact hfew
    | cancelled => exact hfew
    | timedOut => exact hfew
    | failed error =>
      refine always_bind _ fun now => always_bind _ fun wake => ?_
      cases wake with
      | cancelled => exact hfew
      | deadline => exact hfew
      | elapsed =>
        refine (ih _ _).bind ?_
        rintro ⟨result, others⟩ hothers
        change (trials ++ others).length ≤ more + 1 + 1
        rw [List.length_append]
        exact (Nat.add_le_add htrials hothers).trans_eq (Nat.add_comm _ _)

theorem always_tellNode (node : Node) (run : Run) :
    (d.tellNode node run).Always fun r => r.2.length ≤ d.workflow.settings.maxAttempts := by
  have hattempts := d.workflow.settings.maxAttempts_pos
  have htries : ∀ run', (d.tellTries node run').Always fun r =>
      r.2.length ≤ d.workflow.settings.maxAttempts := by
    intro run'
    unfold tellTries
    cases d.executors node.type with
    | none => exact Nat.zero_le _
    | some executor =>
      refine (d.always_tellAttempts executor node run' _ 1 _).mono fun r hr => ?_
      exact hr.trans_eq (Nat.sub_add_cancel hattempts)
  unfold tellNode
  refine always_bind _ fun now => always_bind _ fun run' => (htries run').bind ?_
  rintro ⟨⟨number, log, verdict⟩, trials⟩ htrials
  exact always_bind _ fun now' => always_bind _ fun run'' => htrials

/-- A visit names no more nodes than connections leave its own, and adds a
chapter about that, or none. -/
theorem always_relateVisit (g : Graph) (id : String) (run : Run) (story : Story) :
    (d.relateVisit g id (run, story)).Always fun ((_, story'), onward) =>
      onward.Spreads (g.connections.map (·.source)) id ∧
      (story' = story ∨ ∃ chapter, g.node? id = some chapter.node ∧
        chapter.trials.length ≤ d.workflow.settings.maxAttempts ∧ story' = story ++ [chapter]) := by
  refine always_bind _ fun cancelled => ?_
  cases cancelled
  case true => exact ⟨trivial, Or.inl rfl⟩
  refine always_bind _ fun late => ?_
  cases late
  case true => exact ⟨trivial, Or.inl rfl⟩
  simp only [Bool.false_eq_true, if_false]
  cases hnode : g.node? id with
  | none => exact ⟨Nat.zero_le _, Or.inl rfl⟩
  | some node =>
    refine (d.always_tellNode node run).bind ?_
    rintro ⟨⟨run', verdict⟩, trials⟩ htrials
    have htold : story ++ [⟨node, verdict, trials⟩] = story ∨ ∃ chapter : Chapter,
        some node = some chapter.node ∧
        chapter.trials.length ≤ d.workflow.settings.maxAttempts ∧
        story ++ [⟨node, verdict, trials⟩] = story ++ [chapter] :=
      Or.inr ⟨⟨node, verdict, trials⟩, rfl, htrials, rfl⟩
    cases verdict with
    | completed output => exact ⟨g.length_next_le output.routing id, htold⟩
    | cancelled => exact ⟨trivial, htold⟩
    | timedOut => exact ⟨trivial, htold⟩
    | failed error =>
      dsimp only
      split
      · exact ⟨Nat.zero_le _, htold⟩
      · exact ⟨trivial, htold⟩

/-- The visits of a driver lead to nodes of the graph. -/
theorem relateVisit_within (w : Workflow) (id : String) (a : Run × Story) :
    (d.relateVisit (.ofWorkflow w) id a).Always fun r => r.2.Within (Graph.ofWorkflow w).ids := by
  have hvisit := visit_within d w id a.1
  rw [← d.map_relateVisit, always_map] at hvisit
  exact hvisit

theorem relateVisit_spreads (g : Graph) (id : String) (a : Run × Story) :
    (d.relateVisit g id a).Always fun r => r.2.Spreads (g.connections.map (·.source)) id :=
  (d.always_relateVisit g id a.1 a.2).mono fun _ h => h.1

/-- A chapter is added only for a node that is marked by the visit. -/
theorem relateVisit_spare (id : String) (marked : List String) (a : Run × Story)
    (hm : marked.contains id = false)
    (h : a.2.Spare d.workflow.nodes d.workflow.settings.maxAttempts ∧
      a.2.map (·.node.id) ⊆ marked) :
    (d.relateVisit (.ofWorkflow d.workflow) id a).Always fun r =>
      r.1.2.Spare d.workflow.nodes d.workflow.settings.maxAttempts ∧
        r.1.2.map (·.node.id) ⊆ id :: marked := by
  obtain ⟨run, story⟩ := a
  obtain ⟨hstory, hmarked⟩ := h
  refine (d.always_relateVisit (.ofWorkflow d.workflow) id run story).mono ?_
  rintro ⟨⟨run', story'⟩, onward⟩ ⟨-, rfl | ⟨chapter, hnode, htrials, rfl⟩⟩
  · exact ⟨hstory, List.Subset.trans hmarked (List.subset_cons_self id marked)⟩
  · obtain ⟨hmem, rfl⟩ := Graph.node?_some hnode
    have hnew : chapter.node.id ∉ story.map (·.node.id) := fun hold => by
      have hold := List.contains_iff_mem.mpr (hmarked hold)
      rw [hm] at hold
      cases hold
    refine ⟨hstory.snoc (firstNodes_subset [] d.workflow.nodes hmem) hnew htrials, ?_⟩
    rw [List.map_append]
    refine List.append_subset.mpr ⟨?_, by simp⟩
    exact List.Subset.trans hmarked (List.subset_cons_self _ marked)

end Driver

/-! ## Driving -/

/-- No node may be attempted more often than the policy says. -/
theorem Settings.maxAttempts_le (settings : Settings) :
    settings.maxAttempts ≤ max 1 settings.retryPolicy.maxAttempts := by
  unfold maxAttempts
  split
  · exact Nat.le_refl _
  · exact Nat.le_max_left ..

/-- The load that a run of a valid workflow begins with. -/
theorem Graph.load_starts {w : Workflow} (hw : w.isValid = true) :
    load ((ofWorkflow w).connections.map (·.source)) [] (ofWorkflow w).starts =
      w.startNodes.length + w.connections.length := by
  unfold load
  rw [unmarked_nil, List.length_map, ofWorkflow_of_isValid hw]
  unfold starts Workflow.startNodes
  rw [List.filter_map, List.length_map]
  rfl

/-- What it takes to drive a run of a workflow: each node once at most, no more
pops than there are start nodes and connections, and no more calls of executors
than attempts are allowed for all nodes. -/
structure Story.Bounded (w : Workflow) (story : Story) (pops : Nat) : Prop where
  once : (story.map (·.node.id)).Nodup
  nodes : ∀ chapter ∈ story, chapter.node ∈ w.nodes
  pops : pops ≤ w.startNodes.length + w.connections.length
  calls : story.calls ≤ w.nodes.length * max 1 w.settings.retryPolicy.maxAttempts

namespace Driver

variable (d : Driver) (fuel : Nat) (run : Run)

/-- The loop of a driver. -/
def loop : Process World (Option ((Run × Story) × Option Halt) × Nat) :=
  let g := Graph.ofWorkflow d.workflow
  popAll (d.relateVisit g) fuel [] g.starts (run, [])

/-- Bring a run to its end, and tell its story. -/
def concludeTold : (Run × Story) × Option Halt → Process World (Run × Story)
  | ((run, story), halt) => return (← d.conclude run halt, story)

variable {d} (hw : d.workflow.isValid = true)

include hw

/-- What the loop takes, whether or not it comes to its end. -/
theorem always_loop : (d.loop fuel run).Always fun (ending, pops) =>
    (d.workflow.startNodes.length + d.workflow.connections.length ≤ fuel →
      ending.isSome = true) ∧
    ∀ told ∈ ending, told.1.2.Bounded d.workflow pops := by
  have hpops := popAll_pops (d.relateVisit_spreads (.ofWorkflow d.workflow)) fuel []
    (Graph.ofWorkflow d.workflow).starts (run, [])
  have hspare := popAll_keeps _ d.relateVisit_spare fuel []
    (Graph.ofWorkflow d.workflow).starts (run, []) ⟨.nil, List.nil_subset _⟩
  rw [Graph.load_starts hw] at hpops
  refine (hpops.and hspare).mono ?_
  rintro ⟨ending, pops⟩ ⟨⟨hle, hsome⟩, hspare⟩
  refine ⟨hsome, fun told htold => ?_⟩
  obtain ⟨marked, hstory, -⟩ := hspare told htold
  refine ⟨hstory.once, hstory.nodes, hle, hstory.calls_le.trans ?_⟩
  exact Nat.mul_le_mul_left _ d.workflow.settings.maxAttempts_le

variable {fuel} (hfuel : d.workflow.startNodes.length + d.workflow.connections.length ≤ fuel)

include hfuel

theorem fst_loop : Prod.fst <$> d.loop fuel run =
    some <$> walk (d.relateVisit (.ofWorkflow d.workflow)) (Graph.ofWorkflow d.workflow).size []
      (Graph.ofWorkflow d.workflow).starts (run, []) := by
  refine popAll_walk (d.relateVisit_spreads (.ofWorkflow d.workflow))
    (d.relateVisit_within d.workflow) fuel _ [] _ (run, []) (Graph.starts_subset _) ?_ ?_
  · rw [unmarked_nil, Graph.length_ids]
  · rwa [Graph.load_starts hw]

end Driver

namespace Engine

/-- Take a run through its workflow by the loop alone, count the pops and tell
the story. There is none if `fuel` pops are too few. -/
def tally (e : Engine) (w : Workflow) (fuel : Nat) (run : Run) (token : Nat) :
    Process World (Option (Run × Story) × Nat) := do
  if run.status.isTerminal then return (some (run, []), 0)
  let now ← Driver.clock
  let d := e.driver w token now
  let (ending, pops) ← d.loop fuel run
  return (← ending.mapM d.concludeTold, pops)

/-- Run a workflow from start to end by the loop alone, count the pops and tell the
story. -/
def reckon (e : Engine) (w : Workflow) (fuel : Nat) (payload : Value) (options : RunOptions) :
    Process World (Option (Run × Story) × Nat) := do
  let (run, token) ← e.prepare w payload options
  e.tally w fuel run token

variable (e : Engine) {w : Workflow} (hw : w.isValid = true) {fuel : Nat}
  (hfuel : w.startNodes.length + w.connections.length ≤ fuel)

include hw hfuel

/-- What it takes to drive a run. -/
theorem always_tally (run : Run) (token : Nat) :
    (e.tally w fuel run token).Always fun (ending, pops) =>
      ∃ run' story, ending = some (run', story) ∧ story.Bounded w pops := by
  unfold tally
  split
  · exact ⟨run, [], rfl, List.nodup_nil, by simp, Nat.zero_le _, Nat.zero_le _⟩
  · refine always_bind _ fun now => ?_
    refine (Driver.always_loop (d := e.driver w token now) fuel run hw).bind ?_
    rintro ⟨ending, pops⟩ ⟨hsome, hbounded⟩
    obtain ⟨⟨⟨run', story⟩, halt⟩, rfl⟩ := Option.isSome_iff_exists.mp (hsome hfuel)
    dsimp only
    rw [Option.mapM_some, bind_map_left]
    unfold Driver.concludeTold
    rw [bind_assoc]
    exact always_bind _ fun run'' => ⟨run'', story, rfl, hbounded _ rfl⟩

/-- **The loop is the driver**, with the story that the driver tells. -/
theorem fst_tally (run : Run) (token : Nat) :
    Prod.fst <$> e.tally w fuel run token = some <$> e.relate w run token := by
  unfold tally relate
  split
  · rfl
  · simp only [map_bind]
    congr 1
    funext now
    generalize hd : e.driver w token now = d
    obtain rfl : d.workflow = w := hd ▸ rfl
    calc d.loop fuel run >>= (fun r => r.1.mapM d.concludeTold >>= fun told =>
          Prod.fst <$> pure (told, r.2))
      _ = Prod.fst <$> d.loop fuel run >>= fun ending => ending.mapM d.concludeTold := by
        rw [bind_map_left]
        congr 1
        funext r
        exact bind_pure _
      _ = walk (d.relateVisit (.ofWorkflow d.workflow)) (Graph.ofWorkflow d.workflow).size []
            (Graph.ofWorkflow d.workflow).starts (run, []) >>= fun ending =>
              some <$> d.concludeTold ending := by
        rw [Driver.fst_loop run hw hfuel, bind_map_left]
        rfl
      _ = _ := by
        congr 1
        funext ending
        exact map_bind ..

/-- Without the story it is the driver. -/
theorem tally_drives (run : Run) (token : Nat) :
    (fun r => r.1.map Prod.fst) <$> e.tally w fuel run token = some <$> e.drive w run token := by
  rw [← e.fst_relate]
  calc (fun r => r.1.map Prod.fst) <$> e.tally w fuel run token
    _ = Option.map Prod.fst <$> (Prod.fst <$> e.tally w fuel run token) := by
      rw [← comp_map]
      rfl
    _ = Option.map Prod.fst <$> (some <$> e.relate w run token) := by rw [e.fst_tally hw hfuel]
    _ = some <$> (Prod.fst <$> e.relate w run token) := by
      rw [← comp_map, ← comp_map]
      rfl

/-- Whatever counts the calls of executors counts those of the story. -/
theorem adds_tally {count : Services → Nat} (hcounts : e.executors.Counts w count) (run : Run)
    (token : Nat) : (e.tally w fuel run token).Adds (count ·.services)
      (fun r => r.1.elim 0 (·.2.calls)) 0 := by
  have hsome : (some <$> e.relate w run token).Adds (count ·.services)
      (fun told => told.elim 0 (·.2.calls)) 0 := adds_map.mpr (e.adds_relate hcounts run token)
  rw [← e.fst_tally hw hfuel] at hsome
  exact adds_map.mp hsome

/-- The loop stops as often as the driver. -/
theorem within_tally (hprompt : e.executors.Prompt w) (run : Run) (token : Nat) :
    (e.tally w fuel run token).Within Wait.Comes
      (w.nodes.length * (3 * w.settings.maxAttempts + 2) + 1) := by
  have hdrive := (e.within_drive w run token).mono (fun _ h => h.2.2 hprompt) (Nat.le_refl _)
  have hsome := (within_map (f := some)).mpr hdrive
  rw [← e.tally_drives hw hfuel] at hsome
  exact within_map.mp hsome

theorem fst_reckon (payload : Value) (options : RunOptions) :
    Prod.fst <$> e.reckon w fuel payload options = some <$> e.recount w payload options := by
  unfold reckon recount
  rw [map_bind, map_bind]
  congr 1
  funext r
  exact e.fst_tally hw hfuel r.1 r.2

theorem always_reckon (payload : Value) (options : RunOptions) :
    (e.reckon w fuel payload options).Always fun (ending, pops) =>
      ∃ run story, ending = some (run, story) ∧ story.Bounded w pops :=
  always_bind _ fun r => e.always_tally hw hfuel r.1 r.2

end Engine

/-- **A drive ends**, and takes no more than its workflow allows. Beside the driver,
`tally` goes through the loop pop after pop, counts the pops and tells the story of the
run. Given as many pops as there are start nodes and connections,

* it is the driver;
* it comes to its end with a story that is `Bounded`, whatever the executors answer,
  wherever their answers lead, whatever goes on beside it and whenever it is cut off;
* the calls of the story are those of executors, for whatever counts each of these
  counts as many;
* if no attempt hangs, all that it waits for comes by itself, and it stops so often at
  most. Whatever was done before, a run that is executed is answered then, in a
  course of this loop. -/
theorem drive_ends {w : Workflow} (hw : w.isValid = true) (e : Engine) (fuel : Nat)
    (hfuel : w.startNodes.length + w.connections.length ≤ fuel) (payload : Value)
    (options : RunOptions) :
    (∀ run token, (fun r => r.1.map Prod.fst) <$> e.tally w fuel run token =
      some <$> e.drive w run token) ∧
    (∀ run token, (e.tally w fuel run token).Always fun (ending, pops) =>
      ∃ run' story, ending = some (run', story) ∧ story.Bounded w pops) ∧
    (∀ count, e.executors.Counts w count → ∀ run token, (e.tally w fuel run token).Adds
      (count ·.services) (fun r => r.1.elim 0 (·.2.calls)) 0) ∧
    (e.executors.Prompt w → ∀ run token, (e.tally w fuel run token).Within Wait.Comes
      (w.nodes.length * (3 * w.settings.maxAttempts + 2) + 1)) ∧
    ∀ now registry services series before, ∃ s,
      s = Schedule.performAll { world := { now, registry, services, series } } before ∧
      (e.executors.Prompt w → ∃ run s', s.execute e w payload options = (some run, s')) ∧
      ∀ run s', s.execute e w payload options = (some run, s') → ∃ story pops,
        Course exact (e.reckon w fuel payload options) s.world (.done (some (run, story), pops))
          s'.world ∧ story.Bounded w pops := by
  refine ⟨e.tally_drives hw hfuel, e.always_tally hw hfuel, fun count h => e.adds_tally hw hfuel h,
    fun h => e.within_tally hw hfuel h, ?_⟩
  intro now registry services series before
  have htidy : Schedule.Tidy { world := { now, registry, services, series } } := .of_empty rfl rfl
  refine ⟨_, rfl, fun hprompt => ?_, fun run s' hexecute => ?_⟩
  · obtain ⟨run, s', hexecute, -⟩ :=
      (htidy.performAll before).execute_answers hprompt payload options
    exact ⟨run, s', hexecute⟩
  · obtain ⟨story, -, hrecount, -⟩ := (htidy.performAll before).execute_recounts hexecute
    have hsome := hrecount.map some
    rw [← e.fst_reckon hw hfuel] at hsome
    obtain ⟨⟨ending, pops⟩, hreckon, rfl⟩ := hsome.of_map_done
    obtain ⟨run', story', heq, hbounded⟩ :=
      hreckon.of_always (e.always_reckon hw hfuel payload options)
    cases heq
    exact ⟨story, pops, hreckon, hbounded⟩

/-- Three nodes; the last one is put on the stack by both of the others. -/
def Workflow.triangle : Workflow :=
  { (default : Workflow) with
    name := "triangle"
    nodes := [⟨"a", .trigger, none, .null, [], []⟩, ⟨"b", .trigger, none, .null, [], []⟩,
      ⟨"c", .trigger, none, .null, [], []⟩]
    connections := [⟨"1", "a", "b", none, none⟩, ⟨"2", "a", "c", none, none⟩,
      ⟨"3", "b", "c", none, none⟩] }

/-- The three nodes are taken once each, and all of the four pops are made, as the
last one passes over a node. A run is answered. -/
theorem triangle_drive_ends :
    (∃ run story s, (Engine.prompt.tally .triangle 4 default 0).Ends World.signals
        World.TokensStay {} (some (run, story), 4) s ∧ story.Bounded .triangle 4 ∧
      story.map (·.node.id) = ["a", "b", "c"] ∧ story.calls = 3) ∧
    Engine.prompt.executors.Prompt .triangle ∧
    ∃ run s', Schedule.execute {} .prompt .triangle .null {} = (some run, s') := by
  obtain ⟨-, hbounded, -, -, hruns⟩ :=
    drive_ends (w := .triangle) (by decide) Engine.prompt 4 (by decide) .null {}
  have hprompt : Engine.prompt.executors.Prompt .triangle := by
    rintro _ _ _ ⟨⟩ _ _
    rfl
  refine ⟨?_, hprompt, ?_⟩
  · have hends : (Engine.prompt.tally .triangle 4 default 0).Ends World.signals World.TokensStay {}
        _ _ := .of_turn (fun _ _ => id) 128 .free rfl
    obtain ⟨run, story, heq, hstory⟩ := hends.of_always (hbounded default 0)
    cases heq
    exact ⟨_, _, _, hends, hstory, rfl, rfl⟩
  · obtain ⟨_, rfl, hanswers, -⟩ := hruns 0 {} {} { start := "exec-" } []
    exact hanswers hprompt

/-- An executor that makes one call whenever it is called is counted by its calls. -/
example : Engine.unsteady.executors.Counts .patient (·.calls.length) := by
  rintro _ _ _ ⟨⟩ _ services
  exact List.length_append

end Automation
