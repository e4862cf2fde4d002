/-
Automation.Proofs.Engine.CancellationTheorems — a driver whose run is
cancelled.

Others may cancel a run whenever its driver is at a lock or at a wait, and
at most once. What the driver does afterwards depends on where it was: so a
`Cancellation` says whether it was at a wait, what was stored of the run
and what time it was, and the driver's company writes it down as its note.
The pact of the driver (`cancellable`) is that the others leave the entry
of its run alone or cancel it, and that the driver leaves all other entries
alone and, after a cancellation, the services too.

The stored record, the token and the driver's own record agree in the light
of the note: `Known` says it of the first two, `Between` of all three
between two visits and `InNode` while a node is in hand. `keeps_drive` is
what comes of it: in the end the stored record is that of the driver, and
if the run was cancelled, it has the dates of the cancellation and the
nodes that the cancellation leaves (`Cancellation.Leaves`).
-/
import Automation.Proofs.Engine.AttemptTheorems
import Automation.Proofs.Run.StoreTheorems

namespace Automation

open Process

/-! ## Cancellations -/

/-- A cancellation that has taken effect. -/
structure Cancellation where
  /-- Whether the run had a driver in the background. -/
  driven : Bool
  /-- Where the driver was. -/
  place : Place
  /-- What was stored before. -/
  run : Run
  now : Nat

/-- A node that was given up because its run was cancelled. -/
def NodeRun.IsCancelled (r : NodeRun) : Prop :=
  r.status = .cancelled ∧ r.error = some "Execution cancelled"

/-- Records of nodes that have all ended. -/
def Settled (nodes : List NodeRun) : Prop :=
  ∀ r ∈ nodes, r.status ≠ .running

namespace Cancellation

/-- The record of the run as it is cancelled. -/
def stamped (c : Cancellation) : Run :=
  c.run.finish .cancelled c.now

/-- The records of nodes that are stored after a cancellation: those that
were, or, if the driver had begun, with the last one ended, or, if it was at
the lock, with one more that had been started by then and was not handed in
yet. -/
inductive Allows (c : Cancellation) : List NodeRun → Prop where
  | same : c.Allows c.run.nodes
  | ended {before : List NodeRun} {started ended : NodeRun} :
    c.place ≠ .start → c.run.nodes = before ++ [started] → started.status = .running →
    ended.nodeId = started.nodeId → ended.startedAt = started.startedAt →
    (c.place = .wait → ended.IsCancelled) → c.Allows (before ++ [ended])
  | late {node : NodeRun} {now : Nat} :
    c.place = .lock → node.startedAt = .reading now → now ≤ c.now → node.status ≠ .completed →
    c.Allows (c.run.nodes ++ [node])

/-- The records of nodes that are left in the end. -/
structure Leaves (c : Cancellation) (nodes : List NodeRun) : Prop where
  allows : c.Allows nodes
  settled : Settled nodes
  inHand : c.place = .wait →
    ∃ before started, c.run.nodes = before ++ [started] ∧ started.status = .running

/-- The node that was in hand is given up, and the others are as they were. -/
def GivesUp (c : Cancellation) (nodes : List NodeRun) : Prop :=
  ∃ before started ended, c.run.nodes = before ++ [started] ∧ nodes = before ++ [ended] ∧
    ended.nodeId = started.nodeId ∧ ended.IsCancelled

section

variable {c : Cancellation} {nodes : List NodeRun}

/-- If the driver was not at the lock, no node is started any more. -/
theorem Allows.nodeIds (h : c.Allows nodes) (hplace : c.place ≠ .lock) :
    nodes.map (·.nodeId) = c.run.nodes.map (·.nodeId) := by
  cases h with
  | same => rfl
  | ended _ hnodes _ hid _ _ => simp [hnodes, hid]
  | late hlock => exact absurd hlock hplace

/-- If it was at a wait, the node in hand is given up. -/
theorem Leaves.givesUp (h : c.Leaves nodes) (hplace : c.place = .wait) : c.GivesUp nodes := by
  obtain ⟨before, started, hnodes, hrunning⟩ := h.inHand hplace
  cases h.allows with
  | same =>
    refine absurd hrunning (h.settled started ?_)
    rw [hnodes]
    exact List.mem_append_right _ List.mem_cons_self
  | ended _ hnodes' _ hid _ hcancelled =>
    exact ⟨_, _, _, hnodes', rfl, hid, hcancelled hplace⟩
  | late hlock => simp [hplace] at hlock

end

end Cancellation

/-! ## The company of a driver -/

/-- What the driver of a run does to everything else: nothing, except that
it calls services. -/
structure World.Minds (i : String) (s s' : World) : Prop where
  now : s'.now = s.now
  runs : s'.runs = s.runs
  series : s'.series = s.series
  background : s'.background = s.background
  fired : s'.store.fired = s.store.fired
  tokens : s'.store.tokens = s.store.tokens
  entries : ∀ id, id ≠ i → s'.store.entry? id = s.store.entry? id

/-- The entry and the token of a run in the light of a note. -/
structure Known (i : String) (k : Nat) (s : World) (g : Option Cancellation) : Prop where
  entry : ∃ r, s.store.entry? i = some ⟨r, k⟩ ∧ (g = none → r.status ≠ .cancelled) ∧
    ∀ c, g = some c → r.EndsAs c.stamped ∧ c.Allows r.nodes
  fired : s.store.isFired k = g.isSome

/-- What others do: they leave the entry and the token of a run alone, or
cancel it. -/
inductive Meanwhile (i : String) (k : Nat) (place : Place) (s : World) (g : Option Cancellation)
    (s' : World) : Option Cancellation → Prop where
  | quiet : s.now ≤ s'.now → s'.store.entry? i = s.store.entry? i →
    s'.store.isFired k = s.store.isFired k → Meanwhile i k place s g s' g
  | cancelled {c : Cancellation} : g = none → c.place = place → s.now ≤ c.now → c.now ≤ s'.now →
    s.store.entry? i = some ⟨c.run, k⟩ → c.run.status.isTerminal = false →
    s'.store.entry? i = some ⟨c.stamped, k⟩ → s'.store.isFired k = true →
    Meanwhile i k place s g s' (some c)

/-- What the driver itself does. -/
def Cares (i : String) (k : Nat) (g : Option Cancellation) (s s' : World) : Prop :=
  Known i k s g → Known i k s' g ∧ s.Minds i s' ∧ (g.isSome = true → s'.services = s.services)

/-- A run that has not ended yet, or else was cancelled. -/
def Live (run : Run) (g : Option Cancellation) : Prop :=
  run.status = .running ∨ run.status = .cancelled ∧ g.isSome = true

theorem World.Minds.rfl {i : String} {s : World} : s.Minds i s :=
  ⟨Eq.refl _, Eq.refl _, Eq.refl _, Eq.refl _, Eq.refl _, Eq.refl _, fun _ _ => Eq.refl _⟩

theorem World.Minds.trans {i : String} {s s₁ s₂ : World} (h : s.Minds i s₁) (h' : s₁.Minds i s₂) :
    s.Minds i s₂ where
  now := h'.now.trans h.now
  runs := h'.runs.trans h.runs
  series := h'.series.trans h.series
  background := h'.background.trans h.background
  fired := h'.fired.trans h.fired
  tokens := h'.tokens.trans h.tokens
  entries id hid := (h'.entries id hid).trans (h.entries id hid)

section

variable {i : String} {k : Nat} {place : Place} {s s₁ s₂ : World} {g g₁ g₂ : Option Cancellation}

theorem Meanwhile.entry (h : Meanwhile i k place s g s₁ g₁) {r : Run}
    (hr : s.store.entry? i = some ⟨r, k⟩) : ∃ r', s₁.store.entry? i = some ⟨r', k⟩ := by
  cases h with
  | quiet _ hentry _ => exact ⟨r, hentry.trans hr⟩
  | cancelled _ _ _ _ _ _ hentry _ => exact ⟨_, hentry⟩

/-- There is one cancellation at most. -/
theorem Meanwhile.note (h : Meanwhile i k place s g s₁ g₁) {c : Cancellation} (hc : g = some c) :
    g₁ = some c := by
  cases h with
  | quiet => exact hc
  | cancelled hg => simp [hg] at hc

theorem Meanwhile.trans (h : Meanwhile i k place s g s₁ g₁) (h' : Meanwhile i k place s₁ g₁ s₂ g₂) :
    Meanwhile i k place s g s₂ g₂ := by
  cases h with
  | quiet hnow hentry hfired =>
    cases h' with
    | quiet hnow' hentry' hfired' =>
      exact .quiet (Nat.le_trans hnow hnow') (hentry'.trans hentry) (hfired'.trans hfired)
    | cancelled hg hw hbefore hafter hrun hlive hentry' hfired' =>
      exact .cancelled hg hw (Nat.le_trans hnow hbefore) hafter (hentry.symm.trans hrun) hlive
        hentry' hfired'
  | cancelled hg hw hbefore hafter hrun hlive hentry hfired =>
    cases h' with
    | quiet hnow' hentry' hfired' =>
      exact .cancelled hg hw hbefore (Nat.le_trans hafter hnow') hrun hlive
        (hentry'.trans hentry) (hfired'.trans hfired)
    | cancelled hg' => cases hg'

/-- The others keep entry and token in agreement. -/
theorem Known.meanwhile (hk : Known i k s g) (h : Meanwhile i k place s g s₁ g₁) :
    Known i k s₁ g₁ := by
  cases h with
  | quiet _ hentry hfired =>
    obtain ⟨r, hr, hnone, hsome⟩ := hk.entry
    exact ⟨⟨r, hentry.trans hr, hnone, hsome⟩, hfired.trans hk.fired⟩
  | @cancelled c _ _ _ _ _ _ hentry hfired =>
    refine ⟨⟨c.stamped, hentry, by simp, ?_⟩, hfired⟩
    intro c' hc
    cases hc
    exact ⟨.rfl, .same⟩

theorem Live.running {run : Run} (h : Live run none) : run.status = .running := by
  rcases h with hs | ⟨_, hg⟩
  · exact hs
  · cases hg

theorem Live.meanwhile {run : Run} (h : Live run g) (ho : Meanwhile i k place s g s₁ g₁) :
    Live run g₁ := by
  refine h.imp_right fun h => ⟨h.1, ?_⟩
  obtain ⟨c, hc⟩ := Option.isSome_iff_exists.mp h.2
  simp [ho.note hc]

theorem Cares.trans (h : Cares i k g s s₁) (h' : Cares i k g s₁ s₂) : Cares i k g s s₂ := by
  intro hk
  obtain ⟨hk₁, hm₁, hs₁⟩ := h hk
  obtain ⟨hk₂, hm₂, hs₂⟩ := h' hk₁
  exact ⟨hk₂, hm₁.trans hm₂, fun hg => (hs₂ hg).trans (hs₁ hg)⟩

end

/-- The pact of a driver whose run may be cancelled. -/
def cancellable (i : String) (k : Nat) : Pact World (Option Cancellation) where
  signals := World.signals
  others := Meanwhile i k
  own := Cares i k
  others_refl _ _ _ := .quiet (Nat.le_refl _) rfl rfl
  others_trans _ _ _ _ _ _ _ := Meanwhile.trans
  own_refl _ _ hk := ⟨hk, .rfl, fun _ => rfl⟩
  own_trans _ _ _ _ := Cares.trans

/-! ## Handing in -/

section

variable {i : String} {k : Nat} {s : World} {g : Option Cancellation} {run : Run}

theorem Known.entry?_saveRun (hk : Known i k s g) (hid : run.id = i) :
    Store.entry? (s.saveRun run).2.store i = some ⟨(s.saveRun run).1, k⟩ := by
  obtain ⟨r, hr, _⟩ := hk.entry
  subst hid
  exact Store.entry?_save hr

/-- The driver gets back what it hands in, as long as the run is not
cancelled. -/
theorem Known.saveRun_of_none (hk : Known i k s none) (hid : run.id = i) :
    (s.saveRun run).1 = run := by
  obtain ⟨r, hr, hnone, _⟩ := hk.entry
  subst hid
  rw [World.saveRun_fst, Store.save_of_entry hr]
  exact Store.merge_of_ne (hnone rfl)

/-- Afterwards it gets back the end of the cancelled run. -/
theorem Known.saveRun_of_some {c : Cancellation} (hk : Known i k s (some c)) (hid : run.id = i) :
    (s.saveRun run).1.EndsAs c.stamped := by
  obtain ⟨r, hr, _, hsome⟩ := hk.entry
  obtain ⟨hends, _⟩ := hsome c rfl
  subst hid
  rw [World.saveRun_fst, Store.save_of_entry hr]
  exact (Store.merge_of_cancelled hends.status).trans hends

/-- What is handed back of a run that runs. -/
theorem Known.live_saveRun (hk : Known i k s g) (hid : run.id = i) (hrun : Live run g) :
    Live (s.saveRun run).1 g := by
  cases g with
  | none => rwa [hk.saveRun_of_none hid]
  | some c => exact Or.inr ⟨(hk.saveRun_of_some hid).status, rfl⟩

/-- Handing in the record of the run is minding one's own business, and keeps
entry and token in agreement if the record is what is allowed. -/
theorem Known.cares_saveRun (hk : Known i k s g) (hid : run.id = i)
    (hnone : g = none → run.status ≠ .cancelled) (hsome : ∀ c, g = some c → c.Allows run.nodes) :
    Known i k (s.saveRun run).2 g ∧ Cares i k g s (s.saveRun run).2 := by
  have hentry := hk.entry?_saveRun hid
  obtain ⟨r, hr, _⟩ := hk.entry
  have hknown : Known i k (s.saveRun run).2 g := by
    refine ⟨⟨_, hentry, ?_, ?_⟩, ?_⟩
    · intro hg
      subst hg
      rw [hk.saveRun_of_none hid]
      exact hnone rfl
    · intro c hg
      subst hg
      refine ⟨hk.saveRun_of_some hid, ?_⟩
      rw [World.saveRun_fst, Store.save_nodes]
      exact hsome c rfl
    · rw [← hk.fired]
      simp [Store.isFired]
  refine ⟨hknown, fun _ => ⟨hknown, ?_, fun _ => rfl⟩⟩
  subst hid
  refine ⟨rfl, rfl, rfl, rfl, Store.save_fired _ _, ?_, fun id h => Store.entry?_save_ne h.symm⟩
  rw [World.saveRun_store, Store.save_of_entry hr]

end

namespace Driver

variable {i : String} {k : Nat}

/-- The rule for handing in the record of a run that may be cancelled. -/
theorem keeps_save_known {s : World} {g : Option Cancellation} {run : Run}
    {post : Run → World → Option Cancellation → Prop} (hk : Known i k s g) (hid : run.id = i)
    (h : ∀ s₁ g₁, Meanwhile i k .lock s g s₁ g₁ → Known i k s₁ g₁ →
      (g₁ = none → run.status ≠ .cancelled) ∧ (∀ c, g₁ = some c → c.Allows run.nodes) ∧
      (Known i k (s₁.saveRun run).2 g₁ → post (s₁.saveRun run).1 (s₁.saveRun run).2 g₁)) :
    (save run).Keeps (cancellable i k) post s g := by
  refine keeps_save ?_
  intro s₁ g₁ ho
  have hk₁ := hk.meanwhile ho
  obtain ⟨hnone, hsome, hpost⟩ := h s₁ g₁ ho hk₁
  obtain ⟨hk₂, hcares⟩ := hk₁.cares_saveRun hid hnone hsome
  exact ⟨hcares, hpost hk₂⟩

/-! ## Nodes -/

/-- Between two visits. -/
structure Between (i : String) (k : Nat) (run : Run) (s : World) (g : Option Cancellation) :
    Prop where
  known : Known i k s g
  id : run.id = i
  settled : Settled run.nodes
  live : Live run g
  stored : g = none → ∃ r, s.store.entry? i = some ⟨r, k⟩ ∧ r.status = .running ∧
    r.nodes = run.nodes
  left : ∀ c, g = some c → c.Leaves run.nodes

/-- While a node is in hand that was started by `now`. -/
structure InNode (i : String) (k : Nat) (nodes : List NodeRun) (started : NodeRun) (now : Nat)
    (s : World) (g : Option Cancellation) : Prop where
  known : Known i k s g
  stored : g = none → ∃ r, s.store.entry? i = some ⟨r, k⟩ ∧ r.status = .running ∧
    r.nodes = nodes ++ [started]
  noted : ∀ c, g = some c →
    c.place ≠ .start ∧ c.run.nodes = nodes ++ [started] ∨
      c.place = .lock ∧ c.run.nodes = nodes ∧ now ≤ c.now

/-- A run that is cancelled is the one that is stored. -/
theorem nodes_of_stored {s : World} {cancelled : Run} {nodes : List NodeRun}
    (h : ∃ r, s.store.entry? i = some ⟨r, k⟩ ∧ r.status = .running ∧ r.nodes = nodes)
    (hrun : s.store.entry? i = some ⟨cancelled, k⟩) : cancelled.nodes = nodes := by
  obtain ⟨r, hr, -, hnodes⟩ := h
  obtain rfl : cancelled = r := congrArg StoredRun.run (Option.some.inj (hrun.symm.trans hr))
  exact hnodes

theorem Between.meanwhile {run : Run} {place : Place} {s s₁ : World} {g g₁ : Option Cancellation}
    (h : Between i k run s g) (ho : Meanwhile i k place s g s₁ g₁) (hplace : place ≠ .wait) :
    Between i k run s₁ g₁ := by
  have hk := h.known.meanwhile ho
  cases ho with
  | quiet _ hentry _ =>
    refine ⟨hk, h.id, h.settled, h.live, ?_, h.left⟩
    intro hg
    rw [hentry]
    exact h.stored hg
  | @cancelled c hg hw _ _ hrun _ _ _ =>
    have hnodes := nodes_of_stored (h.stored hg) hrun
    refine ⟨hk, h.id, h.settled, h.live.imp_right fun h => ⟨h.1, rfl⟩, by simp, ?_⟩
    rintro _ ⟨⟩
    refine ⟨?_, h.settled, fun h => absurd (hw.symm.trans h) hplace⟩
    rw [← hnodes]
    exact .same

theorem InNode.meanwhile {nodes : List NodeRun} {started : NodeRun} {now : Nat} {place : Place}
    {s s₁ : World} {g g₁ : Option Cancellation} (h : InNode i k nodes started now s g)
    (ho : Meanwhile i k place s g s₁ g₁) (hplace : place ≠ .start) :
    InNode i k nodes started now s₁ g₁ := by
  have hk := h.known.meanwhile ho
  cases ho with
  | quiet _ hentry _ =>
    refine ⟨hk, ?_, h.noted⟩
    intro hg
    rw [hentry]
    exact h.stored hg
  | @cancelled c hg hw _ _ hrun _ _ _ =>
    have hnodes := nodes_of_stored (h.stored hg) hrun
    refine ⟨hk, by simp, ?_⟩
    intro c' hc
    cases hc
    exact Or.inl ⟨by rwa [hw], hnodes⟩

/-- What a verdict on a node is in the light of a note: `nodes` are the
records of the nodes before. -/
structure Judged (nodes : List NodeRun) (verdict : Verdict) (g : Option Cancellation) : Prop where
  live : g = none → verdict ≠ .cancelled
  waits : ∀ c, g = some c → c.place = .wait → verdict = .cancelled
  late : ∀ c, g = some c → c.run.nodes = nodes → verdict.status ≠ .completed

theorem Judged.meanwhile {nodes : List NodeRun} {started : NodeRun} {now : Nat} {verdict : Verdict}
    {s s₁ : World} {g g₁ : Option Cancellation} (h : Judged nodes verdict g)
    (hin : InNode i k nodes started now s g) (ho : Meanwhile i k .lock s g s₁ g₁) :
    Judged nodes verdict g₁ := by
  cases ho with
  | quiet => exact h
  | @cancelled c hg hw _ _ hrun _ _ _ =>
    have hnodes := nodes_of_stored (hin.stored hg) hrun
    refine ⟨by simp, ?_, ?_⟩
    · intro c' hc hw'
      cases hc
      simp [hw] at hw'
    · intro c' hc hsame
      cases hc
      rw [hnodes] at hsame
      simp at hsame

/-- What is left of the nodes when the one in hand has ended. -/
theorem InNode.leaves {nodes : List NodeRun} {started ended : NodeRun} {now : Nat} {s : World}
    {g : Option Cancellation} {verdict : Verdict} (h : InNode i k nodes started now s g)
    (hj : Judged nodes verdict g) (hsettled : Settled nodes) (hrunning : started.status = .running)
    (hat : started.startedAt = .reading now) (hid : ended.nodeId = started.nodeId)
    (hat' : ended.startedAt = started.startedAt) (hstatus : ended.status = verdict.status)
    (hcancelled : verdict = .cancelled → ended.IsCancelled) :
    Settled (nodes ++ [ended]) ∧ ∀ c, g = some c → c.Leaves (nodes ++ [ended]) := by
  have hall : Settled (nodes ++ [ended]) := by
    intro r hr
    simp only [List.mem_append, List.mem_singleton] at hr
    rcases hr with hr | rfl
    · exact hsettled r hr
    · rw [hstatus]
      exact verdict.status_ne_running
  refine ⟨hall, ?_⟩
  intro c hc
  rcases h.noted c hc with ⟨hbegun, hnodes⟩ | ⟨hw, hnodes, hlate⟩
  · refine ⟨?_, hall, fun _ => ⟨nodes, started, hnodes, hrunning⟩⟩
    exact .ended hbegun hnodes hrunning hid hat' fun hw => hcancelled (hj.waits c hc hw)
  · refine ⟨?_, hall, fun hw' => by cases hw.symm.trans hw'⟩
    rw [← hnodes]
    refine .late hw (hat'.trans hat) hlate ?_
    rw [hstatus]
    exact hj.late c hc hnodes

theorem keeps_tries_judged (d : Driver) (node : Node) (run : Run) {nodes : List NodeRun}
    {started : NodeRun} {now : Nat} {s : World} {g : Option Cancellation}
    (h : InNode i d.token nodes started now s g) (hlock : ∀ c, g = some c → c.place = .lock) :
    (d.tries node run).Keeps (cancellable i d.token) (fun (_, _, verdict) s g =>
      InNode i d.token nodes started now s g ∧ Judged nodes verdict g) s g := by
  unfold tries
  cases d.executors node.type with
  | none =>
    refine keeps_done ⟨h, by simp, ?_, fun _ _ _ => by simp [Verdict.status]⟩
    intro c hc hw
    simp [hlock c hc] at hw
  | some executor =>
    refine (keeps_attempts rfl (fun _ _ _ _ ho h => h.meanwhile ho (by simp)) d ?_ executor node run _ 1 _
      h).mono ?_
    · intro services s g h hlive
      obtain rfl : g = none := by simpa [hlive] using h.known.fired.symm
      refine ⟨?_, ⟨h.known.entry, h.known.fired⟩, h.stored, h.noted⟩
      intro hk
      exact ⟨⟨hk.entry, hk.fired⟩, ⟨rfl, rfl, rfl, rfl, rfl, rfl, fun _ _ => rfl⟩, by simp⟩
    · rintro ⟨number, log, verdict⟩ s g ⟨h, htold⟩
      rw [h.known.fired] at htold
      refine ⟨h, ?_, ?_, ?_⟩
      · intro hg hv
        rw [hg] at htold
        cases htold.mp hv
      · intro c hc _
        exact htold.mpr (by simp [hc])
      · intro c hc _
        rw [htold.mpr (by simp [hc])]
        simp [Verdict.status]

/-- Handing in a run with a node that was started: the node is in hand, or it
was too late for it. -/
theorem keeps_save_started {run : Run} {started : NodeRun} {s : World}
    (h : Between i k run s none) (hlive : started.status = .running)
    (hat : started.startedAt = .reading s.now) :
    (save (run.addNode started)).Keeps (cancellable i k) (fun run₁ s₁ g =>
      InNode i k run.nodes started s.now s₁ g ∧ (∀ c, g = some c → c.place = .lock) ∧
      run₁.id = i ∧ run₁.nodes = run.nodes ++ [started] ∧ Live run₁ g) s none := by
  have hrunning : run.status = .running := h.live.running
  have hid : (run.addNode started).id = i := h.id
  refine keeps_save_known h.known hid ?_
  intro s₁ g₁ ho hk₁
  have hnoted : ∀ c, g₁ = some c → c.place = .lock ∧ c.run.nodes = run.nodes ∧ s.now ≤ c.now := by
    rintro c rfl
    cases ho with
    | cancelled _ hw hnow _ hrun _ _ _ =>
      have hnodes := nodes_of_stored (h.stored rfl) hrun
      exact ⟨hw, hnodes, hnow⟩
  refine ⟨fun _ => by simp [Run.addNode, hrunning], ?_, fun hk => ⟨⟨hk, ?_, ?_⟩,
    fun c hc => (hnoted c hc).1, (Store.save_id _ _).trans hid, Store.save_nodes _ _,
    hk₁.live_saveRun hid (Or.inl hrunning)⟩⟩
  · intro c hc
    obtain ⟨hw, hnodes, hnow⟩ := hnoted c hc
    show c.Allows (run.nodes ++ [started])
    rw [← hnodes]
    exact .late hw hat hnow (by simp [hlive])
  · intro hg
    refine ⟨_, hk₁.entry?_saveRun hid, ?_⟩
    subst hg
    rw [hk₁.saveRun_of_none hid]
    exact ⟨hrunning, rfl⟩
  · exact fun c hc => Or.inr (hnoted c hc)

/-- Handing in a run with a node that has ended: the driver is between two
visits again. -/
theorem keeps_save_ended {nodes : List NodeRun} {started ended : NodeRun} {now : Nat}
    {verdict : Verdict} {run : Run} {s : World} {g : Option Cancellation}
    (h : InNode i k nodes started now s g) (hj : Judged nodes verdict g) (hrun : Live run g)
    (hid : run.id = i) (hnodes : run.nodes = nodes ++ [ended])
    (hleaves : ∀ {s' g'}, InNode i k nodes started now s' g' → Judged nodes verdict g' →
      Settled (nodes ++ [ended]) ∧ ∀ c, g' = some c → c.Leaves (nodes ++ [ended])) :
    (save run).Keeps (cancellable i k) (fun run' s g =>
      Between i k run' s g ∧ (g = none → verdict ≠ .cancelled)) s g := by
  refine keeps_save_known h.known hid ?_
  intro s₁ g₁ ho hk₁
  have hj₁ := hj.meanwhile h ho
  have hlive₁ := hrun.meanwhile ho
  obtain ⟨hsettled, hleaves⟩ := hleaves (h.meanwhile ho (by simp)) hj₁
  refine ⟨?_, ?_, fun hk => ⟨⟨hk, (Store.save_id _ _).trans hid, ?_,
    hk₁.live_saveRun hid hlive₁, ?_, ?_⟩, hj₁.live⟩⟩
  · intro hg
    subst hg
    simp [hlive₁.running]
  · intro c hc
    rw [hnodes]
    exact (hleaves c hc).allows
  · rw [World.saveRun_fst, Store.save_nodes, hnodes]
    exact hsettled
  · intro hg
    subst hg
    exact ⟨_, hk₁.entry?_saveRun hid, (hk₁.live_saveRun hid hlive₁).running, rfl⟩
  · intro c hc
    rw [World.saveRun_fst, Store.save_nodes, hnodes]
    exact hleaves c hc

/-- What a node leaves: the driver is between two visits again. -/
theorem keeps_runNode_known (d : Driver) (node : Node) {run : Run} {s : World}
    (h : Between i d.token run s none) :
    (d.runNode node run).Keeps (cancellable i d.token) (fun (run', verdict) s g =>
      Between i d.token run' s g ∧ (g = none → verdict ≠ .cancelled)) s none := by
  rw [runNode_eq]
  refine keeps_bind.mpr (keeps_read (keeps_bind.mpr ?_))
  generalize hstarted : NodeRun.start node run.context.vars s.now = started
  obtain ⟨hlive, hat⟩ : started.status = .running ∧ started.startedAt = .reading s.now := by
    rw [← hstarted]
    exact ⟨rfl, rfl⟩
  refine (keeps_save_started h hlive hat).mono ?_
  rintro run₁ s₁ g₁ ⟨hin, hlock, hid₁, hnodes₁, hlive₁⟩
  have hstays : ∀ place s g s' g', (cancellable i d.token).others place s g s' g' →
      Live run₁ g → Live run₁ g' := fun _ _ _ _ _ ho h => h.meanwhile ho
  refine keeps_bind.mpr (((d.keeps_tries_judged node run₁ hin hlock).noting hstays hlive₁).mono ?_)
  rintro ⟨number, log, verdict⟩ s₂ g₂ ⟨⟨hin₂, hj₂⟩, hlive₂⟩
  refine keeps_bind.mpr (keeps_read (keeps_bind.mpr ?_))
  generalize hended : started.close d.workflow.settings node s₂.now number log verdict = ended
  generalize hrun₂ : Run.updateNode _ ended = run₂
  obtain ⟨hid₂, hnodes₂, hlive₂⟩ :
      run₂.id = i ∧ run₂.nodes = run.nodes ++ [ended] ∧ Live run₂ g₂ := by
    rw [← hrun₂]
    exact ⟨hid₁, by simp [Run.updateNode, hnodes₁], hlive₂⟩
  refine Keeps.mono (fun _ _ _ => keeps_done)
    (keeps_save_ended hin₂ hj₂ hlive₂ hid₂ hnodes₂ ?_)
  intro s₃ g₃ hin₃ hj₃
  refine hin₃.leaves hj₃ h.settled hlive hat ?_ ?_ ?_ ?_
  · rw [← hended, NodeRun.close_nodeId]
  · rw [← hended, NodeRun.close_startedAt]
  · rw [← hended, NodeRun.close_status]
  · rintro rfl
    rw [← hended]
    exact ⟨rfl, rfl⟩

/-! ## Visits -/

/-- What the driver sees of a cancellation. -/
theorem Between.seen {run : Run} {s : World} {g : Option Cancellation} (h : Between i k run s g) :
    (s.store.isFired k || run.status == .cancelled) = g.isSome := by
  rw [h.known.fired]
  cases g with
  | none => simp [h.live.running]
  | some c => rfl

theorem keeps_visit (d : Driver) (graph : Graph) (id : String) {run : Run} {s : World}
    {g : Option Cancellation} (h : Between i d.token run s g) :
    (d.visit graph id run).Keeps (cancellable i d.token) (fun (run', onward) s g =>
      Between i d.token run' s g ∧ (onward = .halt .cancelled → g.isSome = true)) s g := by
  refine keeps_bind.mpr (keeps_read ?_)
  rw [h.seen]
  cases g with
  | some c => exact keeps_done ⟨h, fun _ => rfl⟩
  | none =>
    refine keeps_bind.mpr (keeps_read ?_)
    cases d.deadline.any (· ≤ s.now) with
    | true => exact keeps_done ⟨h, by simp⟩
    | false =>
      simp only [Bool.false_eq_true, if_false]
      cases graph.node? id with
      | none => exact keeps_done ⟨h, by simp⟩
      | some node =>
        refine keeps_bind.mpr ((d.keeps_runNode_known node h).mono ?_)
        rintro ⟨run', verdict⟩ s' g' ⟨h', hverdict⟩
        cases verdict with
        | completed output => exact keeps_done ⟨h', by simp⟩
        | failed error =>
          dsimp only
          split
          · exact keeps_done ⟨⟨h'.known, h'.id, h'.settled, h'.live, h'.stored, h'.left⟩, by simp⟩
          · exact keeps_done ⟨h', by simp⟩
        | cancelled =>
          refine keeps_done ⟨h', ?_⟩
          intro _
          rw [Option.isSome_iff_ne_none]
          exact fun hg => hverdict hg rfl
        | timedOut => exact keeps_done ⟨h', by simp⟩

end Driver

/-! ## Ends -/

/-- The end of a driver: what is stored is its own record, and if the run was
cancelled, it is what the cancellation leaves. -/
structure Final (i : String) (k : Nat) (run : Run) (s : World) (g : Option Cancellation) :
    Prop where
  known : Known i k s g
  stored : s.store.entry? i = some ⟨run, k⟩
  terminal : run.status.isTerminal = true
  left : ∀ c, g = some c → c.Leaves run.nodes

namespace Driver

variable {i : String} {k : Nat}

/-- The last record is handed in. -/
theorem keeps_save_final {run r : Run} {s : World} {g : Option Cancellation}
    (h : Between i k run s g) (hid : r.id = run.id) (hnodes : r.nodes = run.nodes)
    (hend : r.status.isTerminal = true) (hcancelled : r.status = .cancelled → g.isSome = true) :
    (save r).Keeps (cancellable i k) (Final i k) s g := by
  have hid' : r.id = i := hid.trans h.id
  refine keeps_save_known h.known hid' ?_
  intro s₁ g₁ ho hk₁
  have h₁ := h.meanwhile ho (by simp)
  refine ⟨fun hg hc => ?_, fun c hc => ?_, fun hk => ⟨hk, hk₁.entry?_saveRun hid', ?_, ?_⟩⟩
  · obtain ⟨c, hc⟩ := Option.isSome_iff_exists.mp (hcancelled hc)
    cases hg.symm.trans (ho.note hc)
  · rw [hnodes]
    exact (h₁.left c hc).allows
  · cases g₁ with
    | none => rwa [hk₁.saveRun_of_none hid']
    | some c =>
      rw [(hk₁.saveRun_of_some hid').status]
      rfl
  · intro c hc
    rw [World.saveRun_fst, Store.save_nodes, hnodes]
    exact h₁.left c hc

theorem keeps_conclude_known (d : Driver) {run : Run} {halt : Option Halt} {s : World}
    {g : Option Cancellation} (h : Between i d.token run s g)
    (hhalt : halt = some .cancelled → g.isSome = true) :
    (d.conclude run halt).Keeps (cancellable i d.token) (Final i d.token) s g := by
  have hasked : (d.isCancelled run >>= fun cancelled =>
      if cancelled then save (run.cancel s.now) else save (run.finish .completed s.now)).Keeps
        (cancellable i d.token) (Final i d.token) s g := by
    refine keeps_bind.mpr (keeps_read ?_)
    rw [h.seen]
    cases hg : g.isSome with
    | true =>
      exact keeps_save_final h (Run.cancel_id ..) (Run.cancel_nodes ..) (Run.cancel_terminal ..)
        fun _ => hg
    | false => exact keeps_save_final h rfl rfl rfl (by simp)
  refine keeps_bind.mpr (keeps_read ?_)
  cases halt with
  | none => exact hasked
  | some reason =>
    cases reason with
    | failed node error => exact keeps_save_final h rfl rfl rfl (by simp)
    | timedOut => exact keeps_save_final h rfl rfl rfl (by simp)
    | cancelled => exact hasked

end Driver

/-! ## Runs -/

/-- A run that was set off, before its driver has begun. -/
def Ready (i : String) (k : Nat) (run : Run) (s : World) (g : Option Cancellation) : Prop :=
  run.status = .running ∧ Driver.Between i k run s g ∨ Final i k run s g

section

variable {i : String} {k : Nat} {run : Run} {place : Place} {s s₁ : World}
  {g g₁ : Option Cancellation}

theorem Final.meanwhile (h : Final i k run s g)
    (ho : Meanwhile i k place s g s₁ g₁) : Final i k run s₁ g₁ := by
  have hk := h.known.meanwhile ho
  cases ho with
  | quiet _ hentry _ => exact ⟨hk, hentry.trans h.stored, h.terminal, h.left⟩
  | @cancelled c _ _ _ _ hrun hlive _ _ =>
    obtain rfl : c.run = run := congrArg StoredRun.run (Option.some.inj (hrun.symm.trans h.stored))
    cases hlive.symm.trans h.terminal

theorem Ready.meanwhile (h : Ready i k run s g) (ho : Meanwhile i k place s g s₁ g₁)
    (hplace : place ≠ .wait) : Ready i k run s₁ g₁ :=
  Or.imp (fun h => ⟨h.1, h.2.meanwhile ho hplace⟩) (fun h => h.meanwhile ho) h

/-- **Drives in company**: in the end the stored record is that of the
driver, and if the run was cancelled, it is what the cancellation leaves. -/
theorem Engine.keeps_drive (e : Engine) (w : Workflow) (h : Ready i k run s g) :
    (e.drive w run k).Keeps (cancellable i k) (Final i k) s g := by
  unfold drive
  rcases h with ⟨hrun, h⟩ | h
  · rw [if_neg (by rw [hrun]; exact Bool.false_ne_true)]
    refine keeps_bind.mpr (keeps_read (keeps_bind.mpr ?_))
    generalize hd : (⟨e.executors, w, k, w.settings.timeout.map (s.now + ·)⟩ : Driver) = d
    have htoken : d.token = k := by rw [← hd]
    subst htoken
    have hwalk : (walk (d.visit (.ofWorkflow w)) (Graph.ofWorkflow w).size []
        (Graph.ofWorkflow w).starts run).Keeps (cancellable i d.token) (fun r s g =>
          Driver.Between i d.token r.1 s g ∧ (r.2 = some .cancelled → g.isSome = true)) s g := by
      have hbudget : False → unmarked ([] : List String) [] ≤ (Graph.ofWorkflow w).size := by simp
      refine keeps_walk False (fun _ _ run s g => Driver.Between i d.token run s g) (by simp)
        (fun _ _ _ _ _ _ _ h => h) (fun _ _ _ _ _ _ h => ⟨h, by simp⟩) ?_ _ _ _ _ _ _ hbudget h
      intro marked id rest run s g _ h
      refine (d.keeps_visit _ id h).mono ?_
      rintro ⟨run', onward⟩ s g ⟨h, hhalt⟩
      cases onward with
      | follow targets => exact h
      | halt reason => exact ⟨h, fun hr => hhalt (by rw [Option.some.inj hr])⟩
    refine hwalk.mono ?_
    rintro ⟨run', halt⟩ s' g' ⟨h', hhalt⟩
    exact d.keeps_conclude_known h' hhalt
  · rw [if_pos h.terminal]
    exact h

end

end Automation
