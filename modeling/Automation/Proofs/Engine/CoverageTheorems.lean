/-
Automation.Proofs.Engine.CoverageTheorems — which nodes a run executes.

Which connections of a node are followed is decided while the run is under
way, and the record of the run does not say it. So the driver is made to
tell: `Driver.tellVisit` visits a node as the driver does and adds the
verdict on it to a `Tour`, and `Engine.tell` takes a run through its
workflow so. Forgetting the tour gives the driver back
(`Engine.fst_tell`), so this is a look at the same runs.

`Traces` is what a run of a valid workflow is at any time, in the terms of
its tour: no node has two records, and every recorded node is a start node
or was led to by a node that had completed before. `Covers` is what it is
in the end: if it completes, the recorded nodes are the least set with the
start nodes and all that its nodes lead to (`Workflow.Reached`).
`drive_covers` proves both of every run in any company in which fired
tokens stay fired, whatever the executors answer.

The invariant of the walk relates tour, marks and stack (`Driver.Abreast`):
what is led to is marked or on the stack, what is marked is on the tour,
and nothing else is on either.
-/
import Automation.Proofs.Engine.AttemptTheorems
import Automation.Proofs.Engine.DescentTheorems
import Automation.Proofs.Run.StoreTheorems
import Automation.Proofs.Workflow.ValidationTheorems
import Mathlib.Data.List.Forall2
import Mathlib.Data.List.Induction
import Mathlib.Data.List.Nodup

namespace Automation

open Automation.Json (Value)
open Process

/-! ## Tours -/

/-- The nodes that were taken, in order, with the verdicts on them. -/
abbrev Tour := List (String × Verdict)

namespace Driver

/-- Visit a node of the graph, and tell the verdict. -/
def tellVisit (d : Driver) (g : Graph) (id : String) :
    Run × Tour → Process World ((Run × Tour) × Onward Halt)
  | (run, tour) => do
    if ← d.isCancelled run then return ((run, tour), .halt .cancelled)
    if ← d.isLate then return ((run, tour), .halt .timedOut)
    match g.node? id with
    | none => return ((run, tour), .follow [])
    | some node =>
      let (run, verdict) ← d.runNode node run
      let tour := tour ++ [(id, verdict)]
      match verdict with
      | .completed output => return ((run, tour), .follow (g.next output.routing id))
      | .failed error =>
        if d.workflow.settings.errorHandling == .goOn then
          return ((run.addFailure id, tour), .follow [])
        else return ((run, tour), .halt (.failed id error))
      | .cancelled => return ((run, tour), .halt .cancelled)
      | .timedOut => return ((run, tour), .halt .timedOut)

end Driver

/-- Take a run through its workflow, and tell the tour. -/
def Engine.tell (e : Engine) (w : Workflow) (run : Run) (token : Nat) :
    Process World (Run × Tour) := do
  if run.status.isTerminal then return (run, [])
  let now ← Driver.clock
  let d : Driver := ⟨e.executors, w, token, w.settings.timeout.map (now + ·)⟩
  let g := Graph.ofWorkflow w
  let ((run, tour), halt) ← walk (d.tellVisit g) g.size [] g.starts (run, [])
  return (← d.conclude run halt, tour)

/-- Take a run through so many visits at most, and tell the tour. -/
def Engine.tellVisits (e : Engine) (w : Workflow) (run : Run) (token visits : Nat) :
    Process World (Run × Tour) := do
  let now ← Driver.clock
  let d : Driver := ⟨e.executors, w, token, w.settings.timeout.map (now + ·)⟩
  let g := Graph.ofWorkflow w
  let (told, _) ← walk (d.tellVisit g) visits [] g.starts (run, [])
  return told

/-! ## Forgetting the tour -/

/-- Walks of visits that hand on more than others do. -/
theorem map_walk {σ α β ρ : Type} {f : α → β} {visit : String → α → Process σ (α × Onward ρ)}
    {visit' : String → β → Process σ (β × Onward ρ)}
    (h : ∀ id a, (fun r => (f r.1, r.2)) <$> visit id a = visit' id (f a)) :
    ∀ (budget : Nat) (marked stack : List String) (a : α),
      (fun r => (f r.1, r.2)) <$> walk visit budget marked stack a =
        walk visit' budget marked stack (f a) := by
  intro budget
  induction budget with
  | zero => intros; rfl
  | succ budget ih =>
    intro marked stack a
    unfold walk
    split
    · rfl
    · next id rest _ =>
      simp only [map_bind, ← h, bind_map_left]
      congr 1
      funext r
      obtain ⟨a, onward⟩ := r
      cases onward with
      | halt reason => rfl
      | follow targets => exact ih _ _ _

theorem Driver.map_tellVisit (d : Driver) (g : Graph) (id : String) (a : Run × Tour) :
    (fun r => (r.1.1, r.2)) <$> d.tellVisit g id a = d.visit g id a.1 := by
  obtain ⟨run, tour⟩ := a
  unfold tellVisit visit
  simp only [map_bind]
  congr 1
  funext cancelled
  cases cancelled
  case true => rfl
  simp only [Bool.false_eq_true, if_false, map_bind]
  congr 1
  funext late
  cases late
  case true => rfl
  simp only [Bool.false_eq_true, if_false]
  cases g.node? id with
  | none => rfl
  | some node =>
    simp only [map_bind]
    congr 1
    funext r
    obtain ⟨run, verdict⟩ := r
    cases verdict with
    | failed error =>
      dsimp only
      split <;> rfl
    | completed output => rfl
    | cancelled => rfl
    | timedOut => rfl

/-- **The driver tells about itself**: without the tour it is the driver. -/
theorem Engine.fst_tell (e : Engine) (w : Workflow) (run : Run) (token : Nat) :
    Prod.fst <$> e.tell w run token = e.drive w run token := by
  unfold tell drive
  split
  · rfl
  · simp only [map_bind]
    congr 1
    funext now
    have hwalk := map_walk (Driver.map_tellVisit
        ⟨e.executors, w, token, w.settings.timeout.map (now + ·)⟩ (Graph.ofWorkflow w))
      (Graph.ofWorkflow w).size [] (Graph.ofWorkflow w).starts (run, [])
    dsimp only at hwalk
    rw [← hwalk, bind_map_left]
    congr 1
    funext r
    simp only [map_pure, bind_pure]

/-! ## What a run covers -/

/-- Whether a record says what became of a node. -/
structure NodeRun.Bears (record : NodeRun) (entry : String × Verdict) : Prop where
  nodeId : record.nodeId = entry.1
  status : record.status = entry.2.status
  output : ∀ output, entry.2 = .completed output → record.output = some output.value

/-- Whether a connection leads to a node from one that has completed and
whose routing follows it. -/
def Workflow.Leads (w : Workflow) (tour : Tour) (c : Connection) : Prop :=
  c ∈ w.connections ∧
    ∃ output, (c.source, Verdict.completed output) ∈ tour ∧ output.routing.follows c = true

/-- Whether a node is a start node or was led to. -/
def Workflow.Led (w : Workflow) (tour : Tour) (id : String) : Prop :=
  (∃ node ∈ w.startNodes, node.id = id) ∨ ∃ c, w.Leads tour c ∧ c.target = id

/-- The least set with the start nodes and what its nodes lead to. -/
inductive Workflow.Reached (w : Workflow) (tour : Tour) : String → Prop where
  | start {node : Node} : node ∈ w.startNodes → Reached w tour node.id
  | follow {c : Connection} : Reached w tour c.source → w.Leads tour c → Reached w tour c.target

/-- What can be said of a run of a workflow at any time. -/
structure Traces (w : Workflow) (run : Run) (tour : Tour) : Prop where
  /-- The records are those of the nodes on the tour. -/
  told : List.Forall₂ NodeRun.Bears run.nodes tour
  /-- No node has two records. -/
  distinct : (run.nodes.map (·.nodeId)).Nodup
  /-- Every node was led to by the nodes before it. -/
  led : ∀ before entry after, tour = before ++ entry :: after → w.Led before entry.1

/-- What can be said of a run that has ended. -/
structure Covers (w : Workflow) (run : Run) (tour : Tour) : Prop extends Traces w run tour where
  /-- A run that completes has the records of the nodes that are reached. -/
  reached : run.status = .completed → ∀ id, id ∈ run.nodes.map (·.nodeId) ↔ w.Reached tour id
  /-- A node that is not led to has no record. -/
  missed : run.status = .completed → ∀ id, ¬ w.Led tour id → id ∉ run.nodes.map (·.nodeId)
  /-- A node that is led to has one record, however many ways lead to it. -/
  once : run.status = .completed → ∀ c, w.Leads tour c →
    (run.nodes.map (·.nodeId)).count c.target = 1

theorem ids_of_bears {nodes : List NodeRun} {tour : Tour}
    (h : List.Forall₂ NodeRun.Bears nodes tour) : nodes.map (·.nodeId) = tour.map (·.1) := by
  induction h with
  | nil => rfl
  | cons hb _ ih => rw [List.map_cons, List.map_cons, hb.nodeId, ih]

namespace Workflow

variable {w : Workflow} {tour tour' : Tour}

theorem Leads.mono {c : Connection} (h : tour ⊆ tour') (hl : w.Leads tour c) :
    w.Leads tour' c := by
  obtain ⟨hc, output, hout, hfollows⟩ := hl
  exact ⟨hc, output, h hout, hfollows⟩

theorem Led.mono {id : String} (h : tour ⊆ tour') (hl : w.Led tour id) : w.Led tour' id := by
  rcases hl with hstart | ⟨c, hc, hid⟩
  · exact Or.inl hstart
  · exact Or.inr ⟨c, hc.mono h, hid⟩

/-- What one more node leads to. -/
theorem Led.of_snoc {id id' : String} {verdict : Verdict}
    (h : w.Led (tour ++ [(id', verdict)]) id) :
    w.Led tour id ∨ ∃ output, verdict = .completed output ∧ ∃ c ∈ w.connections,
      c.source = id' ∧ output.routing.follows c = true ∧ c.target = id := by
  rcases h with hstart | ⟨c, ⟨hc, output, hout, hfollows⟩, hid⟩
  · exact Or.inl (Or.inl hstart)
  · simp only [List.mem_append, List.mem_singleton, Prod.mk.injEq] at hout
    rcases hout with hout | ⟨rfl, rfl⟩
    · exact Or.inl (Or.inr ⟨c, ⟨hc, output, hout, hfollows⟩, hid⟩)
    · exact Or.inr ⟨output, rfl, c, hc, rfl, hfollows, hid⟩

theorem Reached.led {id : String} (h : w.Reached tour id) : w.Led tour id := by
  cases h with
  | start hnode => exact Or.inl ⟨_, hnode, rfl⟩
  | follow _ hleads => exact Or.inr ⟨_, hleads, rfl⟩

end Workflow

namespace Traces

variable {w : Workflow} {run : Run} {tour : Tour}

/-- Every node on the tour is reached: by the nodes before it, which are. -/
theorem reached_of_mem (h : Traces w run tour) : ∀ {before after : Tour}, tour = before ++ after →
    ∀ id ∈ before.map (·.1), w.Reached tour id := by
  intro before
  induction before using List.reverseRecOn with
  | nil => intro _ _ id hid; cases hid
  | append_singleton before entry ih =>
    intro after htour id hid
    rw [List.append_assoc, List.singleton_append] at htour
    rw [List.map_append, List.mem_append] at hid
    rcases hid with hid | hid
    · exact ih htour id hid
    · obtain rfl : id = entry.1 := List.mem_singleton.mp hid
      rcases h.led before entry after htour with ⟨node, hnode, hid⟩ | ⟨c, hleads, hid⟩
      · rw [← hid]
        exact .start hnode
      · obtain ⟨hc, output, hout, hfollows⟩ := hleads
        have hsource := ih htour c.source (List.mem_map.mpr ⟨_, hout, rfl⟩)
        have hmem : (c.source, Verdict.completed output) ∈ tour := by
          rw [htour]
          exact List.mem_append_left _ hout
        rw [← hid]
        exact .follow hsource ⟨hc, output, hmem, hfollows⟩

/-- A run covers its workflow if everything that is led to is on its tour. -/
theorem covers (h : Traces w run tour)
    (hclosed : run.status = .completed → ∀ id, w.Led tour id → id ∈ tour.map (·.1)) :
    Covers w run tour := by
  have hids := ids_of_bears h.told
  have hreached : ∀ id ∈ tour.map (·.1), w.Reached tour id :=
    h.reached_of_mem (List.append_nil tour).symm
  refine { h with reached := ?_, missed := ?_, once := ?_ }
  · intro hs id
    rw [hids]
    exact ⟨hreached id, fun hr => hclosed hs id hr.led⟩
  · intro _ id hid hm
    rw [hids] at hm
    exact hid (hreached id hm).led
  · intro hs c hc
    have hmem := hclosed hs c.target (Or.inr ⟨c, hc, rfl⟩)
    rw [← hids] at hmem
    exact List.count_eq_one_of_mem h.distinct hmem

/-- A tour that has started. -/
theorem nil (h : run.nodes = []) : Traces w run [] where
  told := by rw [h]; exact .nil
  distinct := by rw [h]; exact List.nodup_nil
  led := fun before _ _ h => by cases before <;> cases h

/-- One more node on the tour. -/
theorem snoc (h : Traces w run tour) {run' : Run} {record : NodeRun} {id : String}
    {verdict : Verdict} (hnodes : run'.nodes = run.nodes ++ [record])
    (hbears : record.Bears (id, verdict)) (hled : w.Led tour id) (hnew : id ∉ tour.map (·.1)) :
    Traces w run' (tour ++ [(id, verdict)]) where
  told := by
    rw [hnodes]
    exact List.rel_append h.told (.cons hbears .nil)
  distinct := by
    rw [← ids_of_bears h.told] at hnew
    rw [hnodes, List.map_append, List.map_singleton, hbears.nodeId, List.nodup_append_comm]
    exact List.nodup_cons.mpr ⟨hnew, h.distinct⟩
  led := by
    intro before entry after htour
    rcases List.eq_nil_or_concat after with rfl | ⟨after, last, rfl⟩
    · obtain ⟨rfl, hlast⟩ := List.append_inj' htour rfl
      obtain rfl := List.singleton_inj.mp hlast
      exact hled
    · rw [List.concat_eq_append, ← List.cons_append, ← List.append_assoc] at htour
      obtain ⟨rfl, -⟩ := List.append_inj' htour rfl
      exact h.led before entry after rfl

end Traces

/-! ## Company -/

/-- A token that has been fired stays so. -/
def World.TokensStay (s s' : World) : Prop :=
  ∀ token, s.store.isFired token = true → s'.store.isFired token = true

theorem World.TokensStay.of_fired {s s' : World} (h : s'.store.fired = s.store.fired) :
    s.TokensStay s' := by
  intro token hfired
  unfold Store.isFired at hfired ⊢
  rwa [h]

/-- The company of a driver in which fired tokens stay fired. -/
def tokensStay : Pact World Unit where
  signals := World.signals
  others _ s _ s' _ := s.TokensStay s'
  own _ s s' := s.TokensStay s'
  others_refl _ _ _ := fun _ => id
  others_trans _ _ _ _ _ _ _ h h' := fun token hf => h' token (h token hf)
  own_refl _ _ := fun _ => id
  own_trans _ _ _ _ h h' := fun token hf => h' token (h token hf)

theorem World.TokensStay.saveRun (s : World) (run : Run) : s.TokensStay (s.saveRun run).2 :=
  .of_fired (Store.save_fired s.store run)

/-! ## Nodes -/

theorem NodeRun.close_bears (node : Node) (vars : Json.Fields) (settings : Settings)
    (now now' number : Nat) (log : Logger) (verdict : Verdict) :
    ((start node vars now).close settings node now' number log verdict).Bears
      (node.id, verdict) where
  nodeId := close_nodeId ..
  status := close_status ..
  output := fun output h => by
    obtain rfl : verdict = .completed output := h
    rfl

namespace Driver

/-- What the driver does to a run: one more record, that of the node. -/
theorem keeps_runNode (d : Driver) (node : Node) (run : Run) (s : World) (g : Unit) :
    (d.runNode node run).Keeps tokensStay (fun (run', verdict) s _ =>
      (∃ record, run'.nodes = run.nodes ++ [record] ∧ record.Bears (node.id, verdict)) ∧
      (run'.status = run.status ∨ run'.status = .cancelled) ∧
      (verdict = .cancelled → s.store.isFired d.token = true)) s g := by
  rw [runNode_eq]
  refine keeps_bind.mpr (keeps_read (keeps_bind.mpr (keeps_save ?_)))
  intro s₁ g₁ _
  refine ⟨World.TokensStay.saveRun s₁ _, keeps_bind.mpr ?_⟩
  have hnodes := Store.save_nodes s₁.store (run.addNode (.start node run.context.vars s.now))
  have hstatus := Store.save_status s₁.store (run.addNode (.start node run.context.vars s.now))
  rw [← World.saveRun_fst] at hnodes hstatus
  generalize (s₁.saveRun (run.addNode (.start node run.context.vars s.now))).1 = run₁
    at hnodes hstatus
  refine (keeps_tries (fun _ _ => True) rfl (fun _ _ _ _ _ _ => trivial) d
    (fun _ _ _ _ _ => ⟨World.TokensStay.of_fired rfl, trivial⟩) node run₁ trivial).mono ?_
  rintro ⟨number, log, verdict⟩ s₂ g₂ ⟨-, hcancelled⟩
  refine keeps_bind.mpr (keeps_read (keeps_bind.mpr (keeps_save ?_)))
  intro s₃ g₃ ho₃
  refine ⟨World.TokensStay.saveRun s₃ _, keeps_done ⟨⟨(NodeRun.start node run.context.vars
    s.now).close d.workflow.settings node s₂.now number log verdict, ?_, ?_⟩, ?_, ?_⟩⟩
  · simp [Run.updateNode, hnodes, Run.addNode]
  · exact NodeRun.close_bears node _ _ _ _ _ _ verdict
  · rcases Store.save_status s₃.store _ with h | h
    · exact hstatus.imp h.trans h.trans
    · exact Or.inr h
  · intro hv
    exact World.TokensStay.saveRun s₃ _ _ (ho₃ _ (hcancelled hv))

/-! ## Visits -/

/-- How marks, stack and tour are related between two visits. -/
structure Abreast (w : Workflow) (marked stack : List String) (a : Run × Tour) : Prop
    extends Traces w a.1 a.2 where
  marks : marked = (a.2.map (·.1)).reverse
  within : stack ⊆ (Graph.ofWorkflow w).ids
  pending : ∀ id ∈ stack, w.Led a.2 id
  closed : ∀ id, w.Led a.2 id → id ∈ a.2.map (·.1) ∨ id ∈ stack
  live : a.1.status = .running ∨ a.1.status = .cancelled

/-- What a walk leaves that is given visits enough, or not. -/
structure Halted (d : Driver) (w : Workflow) (enough : Prop) (r : (Run × Tour) × Option Halt)
    (s : World) : Prop extends Traces w r.1.1 r.1.2 where
  closed : enough → r.2 = none → ∀ id, w.Led r.1.2 id → id ∈ r.1.2.map (·.1)
  live : r.1.1.status = .running ∨ r.1.1.status = .cancelled
  cancelled : r.2 = some .cancelled →
    s.store.isFired d.token = true ∨ r.1.1.status = .cancelled

namespace Abreast

variable {w : Workflow} {marked stack : List String} {id : String} {run run' : Run} {tour : Tour}

theorem not_mem (h : Abreast w marked stack (run, tour)) (hm : marked.contains id = false) :
    id ∉ tour.map (·.1) := by
  rw [h.marks] at hm
  simpa using hm

/-- The walk begins with the start nodes. -/
theorem start (hw : w.isValid = true) (hnodes : run.nodes = []) (hlive : run.status = .running) :
    Abreast w [] (Graph.ofWorkflow w).starts (run, []) where
  toTraces := .nil hnodes
  marks := rfl
  within := Graph.starts_subset _
  pending := fun _ hid => Or.inl ((Graph.mem_starts hw).mp hid)
  closed := by
    rintro id (hid | ⟨c, ⟨_, output, hout, _⟩, _⟩)
    · exact Or.inr ((Graph.mem_starts hw).mpr hid)
    · cases hout
  live := Or.inl hlive

/-- The walk passes over a marked node. -/
theorem skip {a : Run × Tour} (h : Abreast w marked (id :: stack) a)
    (hm : marked.contains id = true) : Abreast w marked stack a where
  toTraces := h.toTraces
  marks := h.marks
  within := fun _ hx => h.within (List.mem_cons_of_mem _ hx)
  pending := fun x hx => h.pending x (List.mem_cons_of_mem _ hx)
  closed := by
    intro x hx
    rcases h.closed x hx with hx | hx
    · exact Or.inl hx
    · rcases List.mem_cons.mp hx with rfl | hx
      · rw [h.marks] at hm
        exact Or.inl (by simpa using hm)
      · exact Or.inr hx
  live := h.live

/-- The walk has come to its end. -/
theorem halted {a : Run × Tour} {enough : Prop} (h : Abreast w marked stack a)
    (hstack : enough → stack = []) (d : Driver) (s : World) : d.Halted w enough (a, none) s where
  toTraces := h.toTraces
  closed := by
    intro he _ x hx
    rcases h.closed x hx with hx | hx
    · exact hx
    · rw [hstack he] at hx
      cases hx
  live := h.live
  cancelled := by simp

/-- The walk goes on along the connections that are followed. -/
theorem follow (h : Abreast w marked (id :: stack) (run, tour)) (hm : marked.contains id = false)
    {record : NodeRun} {verdict : Verdict} {targets : List String}
    (hnodes : run'.nodes = run.nodes ++ [record]) (hbears : record.Bears (id, verdict))
    (hlive : run'.status = .running ∨ run'.status = .cancelled)
    (htargets : ∀ target, target ∈ targets ↔ ∃ output, verdict = .completed output ∧
      ∃ c ∈ w.connections, c.source = id ∧ output.routing.follows c = true ∧ c.target = target)
    (hwithin : targets ⊆ (Graph.ofWorkflow w).ids) :
    Abreast w (id :: marked) (targets.filter (fun t => !(id :: marked).contains t) ++ stack)
      (run', tour ++ [(id, verdict)]) := by
  have htraces : Traces w run' (tour ++ [(id, verdict)]) :=
    h.toTraces.snoc hnodes hbears (h.pending id List.mem_cons_self) (h.not_mem hm)
  have hlonger : tour ⊆ tour ++ [(id, verdict)] := List.subset_append_left tour _
  refine { htraces with marks := ?_, within := ?_, pending := ?_, closed := ?_, live := hlive }
  · simp [h.marks]
  · refine List.append_subset.mpr ⟨?_, fun x hx => h.within (List.mem_cons_of_mem _ hx)⟩
    exact fun x hx => hwithin (List.mem_filter.mp hx).1
  · intro x hx
    simp only [List.mem_append] at hx
    rcases hx with hx | hx
    · obtain ⟨output, rfl, c, hc, hs, hf, ht⟩ := (htargets x).mp (List.mem_filter.mp hx).1
      refine Or.inr ⟨c, ⟨hc, output, ?_, hf⟩, ht⟩
      rw [hs]
      exact List.mem_append_right _ List.mem_cons_self
    · exact (h.pending x (List.mem_cons_of_mem _ hx)).mono hlonger
  · intro x hx
    rcases hx.of_snoc with hx | hx
    · rcases h.closed x hx with hx | hx
      · exact Or.inl (by simpa using Or.inl (by simpa using hx))
      · rcases List.mem_cons.mp hx with rfl | hx
        · exact Or.inl (by simp)
        · exact Or.inr (List.mem_append_right _ hx)
    · by_cases hmark : x ∈ id :: marked
      · refine Or.inl ?_
        rw [h.marks] at hmark
        simpa [or_comm] using hmark
      · refine Or.inr (List.mem_append_left _ (List.mem_filter.mpr ⟨(htargets x).mpr hx, ?_⟩))
        simpa using hmark

end Abreast

/-- What a visit leaves: the walk goes on abreast, or is halted. -/
theorem keeps_tellVisit {w : Workflow} (hw : w.isValid = true) (d : Driver)
    {marked stack : List String} {id : String} {a : Run × Tour} (enough : Prop) (s : World)
    (g : Unit) (hm : marked.contains id = false) (h : Abreast w marked (id :: stack) a) :
    (d.tellVisit (Graph.ofWorkflow w) id a).Keeps tokensStay (fun (a, onward) s _ =>
      match onward with
      | .follow targets =>
        Abreast w (id :: marked) (targets.filter (fun t => !(id :: marked).contains t) ++ stack) a
      | .halt reason => d.Halted w enough (a, some reason) s) s g := by
  obtain ⟨run, tour⟩ := a
  obtain ⟨node, hnode⟩ := Graph.exists_node? (h.within List.mem_cons_self)
  obtain ⟨-, rfl⟩ := Graph.node?_some hnode
  have hnew : node.id ∉ tour.map (·.1) := h.not_mem hm
  have hled : w.Led tour node.id := h.pending node.id List.mem_cons_self
  refine keeps_bind.mpr (keeps_read ?_)
  cases hc : (s.store.isFired d.token || run.status == .cancelled) with
  | true =>
    refine keeps_done { h.toTraces with closed := fun _ => by simp, live := h.live, cancelled := ?_ }
    intro _
    simpa using hc
  | false =>
    refine keeps_bind.mpr (keeps_read ?_)
    cases d.deadline.any (· ≤ s.now) with
    | true =>
      exact keeps_done { h.toTraces with closed := fun _ => by simp, live := h.live, cancelled := by simp }
    | false =>
      simp only [Bool.false_eq_true, if_false, hnode]
      refine keeps_bind.mpr ((keeps_runNode d node run s g).mono ?_)
      rintro ⟨run', verdict⟩ s' _ ⟨⟨record, hnodes, hbears⟩, hstatus, hcancelled⟩
      have hlive : run'.status = .running ∨ run'.status = .cancelled := by
        rcases hstatus with hs | hs
        · rw [hs]
          exact h.live
        · exact Or.inr hs
      have htraces := h.toTraces.snoc hnodes hbears hled hnew
      cases verdict with
      | completed output =>
        refine keeps_done (h.follow hm hnodes hbears hlive ?_ ?_)
        · intro target
          rw [Graph.mem_next, Graph.ofWorkflow_of_isValid hw]
          simp
        · exact Graph.next_subset w output.routing node.id
      | failed error =>
        dsimp only
        split
        · have hgoes : Abreast w (node.id :: marked)
              ([].filter (fun t => !(node.id :: marked).contains t) ++ stack)
              (run'.addFailure node.id, tour ++ [(node.id, .failed error)]) :=
            h.follow hm hnodes hbears hlive (by simp) (List.nil_subset _)
          exact keeps_done hgoes
        · exact keeps_done { htraces with closed := fun _ => by simp, live := hlive, cancelled := by simp }
      | cancelled =>
        exact keeps_done
          { htraces with closed := fun _ => by simp, live := hlive, cancelled := fun _ => Or.inl (hcancelled rfl) }
      | timedOut =>
        exact keeps_done { htraces with closed := fun _ => by simp, live := hlive, cancelled := by simp }

/-- The end of a run adds no record, and it is completed only if the walk was
not halted. -/
theorem keeps_conclude {w : Workflow} (d : Driver) {run : Run} {tour : Tour} {halt : Option Halt}
    {enough : Prop} {s : World} (g : Unit) (h : d.Halted w enough ((run, tour), halt) s) :
    (d.conclude run halt).Keeps tokensStay (fun run' _ _ =>
      run'.nodes = run.nodes ∧ (run'.status = .completed → halt = none)) s g := by
  have hsave : ∀ r : Run, r.nodes = run.nodes → (r.status = .completed → halt = none) →
      (save r).Keeps tokensStay (fun run' _ _ =>
        run'.nodes = run.nodes ∧ (run'.status = .completed → halt = none)) s g := by
    intro r hnodes hstatus
    refine keeps_save fun s₁ _ _ => ⟨World.TokensStay.saveRun s₁ r, ?_, ?_⟩
    · rw [World.saveRun_fst, Store.save_nodes, hnodes]
    · intro hc
      rw [World.saveRun_fst] at hc
      rcases Store.save_status s₁.store r with hs | hs
      · exact hstatus (hs.symm.trans hc)
      · simp [hs] at hc
  refine keeps_bind.mpr (keeps_read ?_)
  cases halt with
  | none =>
    refine keeps_bind.mpr (keeps_read ?_)
    split
    · exact hsave _ (Run.cancel_nodes run s.now) fun _ => rfl
    · exact hsave _ (Run.finish_nodes run .completed s.now) fun _ => rfl
  | some reason =>
    cases reason with
    | failed node error => exact hsave _ (Run.fail_nodes ..) (by simp)
    | timedOut => exact hsave _ (Run.fail_nodes ..) (by simp)
    | cancelled =>
      -- a run that was halted by a cancellation is still cancelled
      refine keeps_bind.mpr (keeps_read ?_)
      have hc : (s.store.isFired d.token || run.status == .cancelled) = true := by
        simpa using h.cancelled rfl
      rw [if_pos hc]
      refine hsave _ (Run.cancel_nodes run s.now) ?_
      intro hs
      rcases h.live with hr | hr
      · rw [Run.cancel_of_live (by rw [hr]; rfl)] at hs
        cases hs
      · rw [Run.cancel_of_terminal (by rw [hr]; rfl), hr] at hs
        cases hs

end Driver

/-! ## Runs -/

theorem Engine.always_prepare {w : Workflow} (hw : w.isValid = true) (e : Engine) (payload : Value)
    (options : RunOptions) :
    (e.prepare w payload options).Always fun r => r.1.nodes = [] ∧ r.1.status = .running := by
  unfold prepare
  simp only [hw, if_true]
  exact fun _ _ _ => ⟨rfl, rfl⟩

/-- The walk of a run, with visits enough or not. -/
theorem Driver.keeps_tellWalk {w : Workflow} (hw : w.isValid = true) (d : Driver) {run : Run}
    (visits : Nat) (s : World) (g : Unit) (hnodes : run.nodes = []) (hstatus : run.status = .running) :
    (walk (d.tellVisit (Graph.ofWorkflow w)) visits [] (Graph.ofWorkflow w).starts
      (run, [])).Keeps tokensStay
        (fun r s _ => d.Halted w ((Graph.ofWorkflow w).size ≤ visits) r s) s g := by
  have hbudget : (Graph.ofWorkflow w).size ≤ visits →
      unmarked (Graph.ofWorkflow w).ids [] ≤ visits := by
    rw [unmarked_nil, Graph.length_ids]
    exact id
  refine keeps_walk _ (fun marked stack a _ _ => Abreast w marked stack a)
    (fun _ _ _ _ _ _ h => h.within) ?_ ?_ ?_ _ _ _ _ _ _ hbudget (.start hw hnodes hstatus)
  · exact fun _ _ _ _ _ _ hm h => h.skip hm
  · exact fun _ _ _ s _ hstack h => h.halted hstack d s
  · intro marked id stack a s g hm h
    refine (d.keeps_tellVisit hw ((Graph.ofWorkflow w).size ≤ visits) s g hm h).mono ?_
    rintro ⟨a, onward⟩ s g hgoes
    cases onward <;> exact hgoes

theorem Engine.keeps_tellVisits {w : Workflow} (hw : w.isValid = true) (e : Engine) {run : Run}
    (token visits : Nat) (s : World) (g : Unit) (hnodes : run.nodes = [])
    (hstatus : run.status = .running) :
    (e.tellVisits w run token visits).Keeps tokensStay (fun (run', tour) _ _ =>
      Traces w run' tour) s g := by
  unfold tellVisits
  refine keeps_bind.mpr (keeps_read (keeps_bind.mpr ?_))
  refine (Driver.keeps_tellWalk hw _ visits s g hnodes hstatus).mono ?_
  exact fun _ _ _ h => keeps_done h.toTraces

theorem Engine.keeps_tell {w : Workflow} (hw : w.isValid = true) (e : Engine) {run : Run}
    (token : Nat) (s : World) (g : Unit) (hnodes : run.nodes = []) (hstatus : run.status = .running) :
    (e.tell w run token).Keeps tokensStay (fun (run', tour) _ _ => Covers w run' tour) s g := by
  unfold tell
  rw [if_neg (by rw [hstatus]; exact Bool.false_ne_true)]
  refine keeps_bind.mpr (keeps_read (keeps_bind.mpr ?_))
  refine (Driver.keeps_tellWalk hw _ _ s g hnodes hstatus).mono ?_
  rintro ⟨⟨run, tour⟩, halt⟩ s g h
  refine keeps_bind.mpr ((Driver.keeps_conclude _ g h).mono ?_)
  rintro run' s g ⟨hnodes', hstatus'⟩
  have htraces : Traces w run' tour := {
    told := by rw [hnodes']; exact h.told
    distinct := by rw [hnodes']; exact h.distinct
    led := h.led }
  exact keeps_done (htraces.covers fun hc => h.closed (Nat.le_refl _) (hstatus' hc))

/-- **What a run covers.** A run of a valid workflow is set off, and driven
at any time later, in whatever company in which fired tokens stay fired and
however its executors answer. After any number of visits no node has two
records and each one was led to, and when the run has ended, it covers its
workflow. -/
theorem drive_covers {w : Workflow} (hw : w.isValid = true) (e : Engine) (payload : Value)
    (options : RunOptions) :
    (∀ run token, Prod.fst <$> e.tell w run token = e.drive w run token) ∧
    ∀ run token s₀ s₁, (e.prepare w payload options).Ends World.signals World.TokensStay s₀
        (run, token) s₁ →
      (∀ visits s₂ run' tour s₃, (e.tellVisits w run token visits).Ends World.signals
        World.TokensStay s₂ (run', tour) s₃ → Traces w run' tour) ∧
      (∀ s₂ run' tour s₃, (e.tell w run token).Ends World.signals World.TokensStay s₂
        (run', tour) s₃ → Covers w run' tour) := by
  refine ⟨e.fst_tell w, ?_⟩
  intro run token s₀ s₁ hprepare
  obtain ⟨hnodes, hstatus⟩ := hprepare.of_always (e.always_prepare hw payload options)
  constructor
  · intro visits s₂ run' tour s₃ hends
    have hkeeps := e.keeps_tellVisits hw token visits s₂ () hnodes hstatus
    have htraces := hends.of_keeps rfl (fun _ _ _ ho => ho) hkeeps
    exact htraces
  · intro s₂ run' tour s₃ hends
    have hkeeps := e.keeps_tell hw token s₂ () hnodes hstatus
    have hcovers := hends.of_keeps rfl (fun _ _ _ ho => ho) hkeeps
    exact hcovers

/-- Two nodes; two connections lead from the one to the other. -/
def Workflow.pair : Workflow :=
  { (default : Workflow) with
    name := "pair"
    nodes := [⟨"a", .trigger, none, .null, [], []⟩, ⟨"b", .trigger, none, .null, [], []⟩]
    connections := [⟨"1", "a", "b", none, none⟩, ⟨"2", "a", "b", none, none⟩] }

/-- An engine whose nodes all complete at once. -/
def Engine.prompt : Engine where
  executors _ := some fun _ _ services =>
    (.succeeded { level := .debug, message := "" } { value := .null }, services)
  config := default

/-- A run that meets a node on two ways, and executes it once. -/
theorem pair_covered : ∃ run tour, Covers .pair run tour ∧ run.status = .completed ∧
    tour.map (·.1) = ["a", "b"] := by
  refine ⟨_, _, ((drive_covers (by decide) Engine.prompt .null {}).2 _ _ {} _
    (.of_turn (fun _ _ => id) 128 .free rfl)).2 {} _ _ _
      (.of_turn (fun _ _ => id) 128 .free rfl), rfl, rfl⟩

end Automation
