/-
Automation.Proofs.Engine.SolitudeTheorems — runs beside others, and alone.

Two runs of one workflow are set off with the same data, each in a world of
its own, and nobody touches either of them (`shelter`). If no executor that
they come to tells the worlds apart, then they end alike: the one record is
the other one under another id and on a clock that is ahead
(`Engine.holds_solo`). Their drivers go alike (`Mirror.solo`), and the clocks
stay together because each of them shows the very instant that its driver
has waited for.
-/
import Automation.Proofs.Engine.ShelterTheorems
import Automation.Proofs.Node.SteeringTheorems

namespace Automation

open Process
open Automation.Json (Value)

/-! ## Like waits -/

/-- The driver of one run waits as that of the other one, whose clock is behind. -/
structure Wait.Ahead (k k' later : Nat) (wait wait' : Wait) : Prop where
  token : wait.token = some k
  token' : wait'.token = some k'
  deadline : wait.deadline = wait'.deadline.map (· + later)
  due : wait.due = .nothing ∧ wait'.due = .nothing ∨
    ∃ t, wait.due = .instant (t + later) ∧ wait'.due = .instant t

section

variable {k k' later : Nat} {wait wait' : Wait} {signals signals' : Signals}

/-- Both waits end alike, unless they are cut off. -/
theorem Wait.Ahead.wake?_eq (h : wait.Ahead k k' later wait')
    (hnow : signals.now = signals'.now + later) (hk : signals.isFired k = false)
    (hk' : signals'.isFired k' = false) : wait.wake? signals = wait'.wake? signals' := by
  have hdeadline : wait.deadline.any (· ≤ signals.now) = wait'.deadline.any (· ≤ signals'.now) := by
    rw [h.deadline, hnow]
    cases wait'.deadline <;> simp
  have hdue : wait.due.hasCome signals = wait'.due.hasCome signals' := by
    rcases h.due with ⟨hdue, hdue'⟩ | ⟨t, hdue, hdue'⟩
    · rw [hdue, hdue']
      rfl
    · simp [hdue, hdue', Due.hasCome, hnow]
  unfold Wait.wake?
  rw [h.token, h.token', hdeadline, hdue]
  simp [hk, hk']

/-- The instants that they are for. -/
theorem Wait.Ahead.instant? (h : wait.Ahead k k' later wait') {t : Nat}
    (hdue : wait'.due = .instant t) :
    ∃ u, wait'.instant? = some u ∧ wait.instant? = some (u + later) := by
  rcases h.due with ⟨-, hnothing⟩ | ⟨t', hdue', ht'⟩
  · cases hdue.symm.trans hnothing
  · obtain rfl : t' = t := by simpa using ht'.symm.trans hdue
    unfold Wait.instant?
    rw [h.deadline, hdue', hdue]
    cases wait'.deadline with
    | none => exact ⟨_, rfl, rfl⟩
    | some deadline => exact ⟨_, rfl, congrArg some (Nat.add_min_add_right _ _ _)⟩

/-- Who has waited for an instant finds it come. -/
theorem Wait.le_of_wake? {wake : Wake} {u t : Nat} (hwake : wait.wake? signals = some wake)
    (htoken : wait.token = some k) (hk : signals.isFired k = false) (hdue : wait.due = .instant t)
    (hu : wait.instant? = some u) : u ≤ signals.now := by
  have hover : (wait.wake? signals).isSome = true := by rw [hwake]; rfl
  rw [Wait.isSome_wake?, htoken, hdue] at hover
  unfold Wait.instant? at hu
  rw [hdue] at hu
  rcases hover with hfired | hdeadline | hcome
  · cases hk.symm.trans hfired
  · obtain ⟨deadline, hd, hle⟩ := (Option.any_eq_true ..).mp hdeadline
    rw [hd] at hu
    have hle' := of_decide_eq_true hle
    cases hu
    exact Nat.le_trans (Nat.min_le_left _ _) hle'
  · have hle' : t ≤ signals.now := of_decide_eq_true hcome
    cases hd : wait.deadline <;> rw [hd] at hu <;> cases hu
    · exact hle'
    · exact Nat.le_trans (Nat.min_le_right _ _) hle'

end

/-! ## Like worlds -/

/-- A record under another id, and on a clock that is ahead. -/
def View.elsewhere (i : String) (later : Nat) : View where
  id _ := i
  later

/-- Each of two worlds has a run; the one is what is seen of the other. -/
structure World.Ahead (i i' : String) (k k' later : Nat) (s t : World) : Prop where
  now : s.now = t.now + later
  unfired : s.store.isFired k = false
  unfired' : t.store.isFired k' = false
  entry : ∃ r, s.store.entry? i = some ⟨(View.elsewhere i later).run r, k⟩ ∧
    t.store.entry? i' = some ⟨r, k'⟩

/-- The two drivers. -/
def Mirror.solo (i i' : String) (k k' later : Nat) (e e' : Engine) (w : Workflow) : Mirror where
  states := World.Ahead i i' k k' later
  steps _ _ := World.Ahead i i' k k' later
  waits := Wait.Ahead k k' later
  view := .elsewhere i later
  workflow := w
  logging := w.settings.logging
  executors := e.executors
  executors' := e'.executors
  token := k
  token' := k'
  owns r := r.id = i'

/-- No executor that a run of the workflow comes to tells the worlds apart. -/
structure Engine.Keeps (later : Nat) (w : Workflow) (e e' : Engine) : Prop where
  config : e.config = e'.config
  executors : ∀ node ∈ w.nodes,
    Option.Rel (Executor.Keeps later node) (e.executors node.type) (e'.executors node.type)

section

variable {i i' : String} {k k' later : Nat} {e e' : Engine} {w : Workflow}

theorem Mirror.runs_solo {r r' : Run} : (Mirror.solo i i' k k' later e e' w).runs r r' ↔
    r = (View.elsewhere i later).run r' ∧ r'.id = i' :=
  Mirror.runs_iff rfl

theorem Mirror.solo_sound (he : Engine.Keeps later w e e') :
    (Mirror.solo i i' k k' later e e' w).Sound where
  now hs := hs.now
  isFired hs := hs.unfired.trans hs.unfired'.symm
  look hs := hs
  save := by
    rintro s t _ r ⟨hnow, hunfired, hunfired', r₀, hentry, hentry'⟩ hr
    obtain ⟨rfl, rfl⟩ := Mirror.runs_solo.mp hr
    have hentry : s.store.entry? ((View.elsewhere i later).run r).id =
      some ⟨(View.elsewhere i later).run r₀, k⟩ := hentry
    have hrun : (s.saveRun ((View.elsewhere i later).run r)).1 =
        (View.elsewhere i later).run (t.saveRun r).1 := by
      have hfst : (s.saveRun ((View.elsewhere i later).run r)).1 = Store.merge _ _ :=
        Store.save_fst (Store.get?_eq hentry)
      have hfst' : (t.saveRun r).1 = Store.merge _ _ :=
        Store.save_fst (Store.get?_eq hentry')
      rw [hfst, hfst', View.run_merge]
    refine ⟨⟨hnow, ?_, ?_, (t.saveRun r).1, ?_, Store.entry?_save hentry'⟩,
      Mirror.runs_solo.mpr ⟨hrun, Store.save_id t.store r⟩⟩
    · exact (congrArg (List.contains · k) (Store.save_fired s.store _)).trans hunfired
    · exact (congrArg (List.contains · k') (Store.save_fired t.store _)).trans hunfired'
    · rw [← hrun]
      exact Store.entry?_save hentry
  calls := by
    intro node hnode
    have hexecutors := he.executors node hnode
    dsimp only [Mirror.solo]
    generalize e.executors node.type = executor?, e'.executors node.type = executor?' at hexecutors
    cases hexecutors with
    | none => exact .none
    | some hkeeps => ?_
    refine .some fun s t _ r hs hr => ?_
    obtain ⟨rfl, -⟩ := Mirror.runs_solo.mp hr
    have hsame := hkeeps.same r.context i r.id r.workflowId t.now s.services t.services
    rw [← hs.now] at hsame
    refine ⟨?_, fun hnone => ?_, ⟨hs.now, hs.unfired, hs.unfired', hs.entry⟩⟩
    · exact hsame ▸ .refl _ _ _
    have hsome := hkeeps.finish ⟨r.context, r.id, r.workflowId, t.now⟩ t.services
    rw [hnone] at hsome
    cases hsome
  waits_nothing _ := ⟨rfl, rfl, rfl, Or.inl ⟨rfl, rfl⟩⟩
  waits_instant _ t := ⟨rfl, rfl, rfl, Or.inr ⟨t, rfl, rfl⟩⟩
  logs := ⟨fun level => (Bool.and_true _).symm, rfl⟩
  owns hr h := h.id_eq.trans hr

/-- Whoever leaves both runs alone leaves the worlds alike, and lets their
drivers wait alike. -/
theorem Mirror.solo_meets {c c' : Company World} (hc : c.signals = World.signals)
    (hc' : c'.signals = World.signals)
    (ho : ∀ place s s', c.others place s s' → s.Shelters i k place s')
    (ho' : ∀ place t t', c'.others place t t' → t.Shelters i' k' place t') :
    (Mirror.solo i i' k k' later e e' w).toLikeness.Meets c c' where
  steps _ h := h
  lock := by
    intro s t s' t' hs hs' ht'
    have hleft := ho _ _ _ hs'
    have hleft' := ho' _ _ _ ht'
    refine ⟨?_, hleft.token.trans hs.unfired, hleft'.token.trans hs.unfired', ?_⟩
    · rw [hleft.lock rfl, hleft'.lock rfl, hs.now]
    · rw [hleft.entry, hleft'.entry]
      exact hs.entry
  wait := by
    intro wait wait' s t s' t' wake wake' hwait hs hs' ht' hwake hwake'
    have hleft := ho _ _ _ hs'
    have hleft' := ho' _ _ _ ht'
    rw [hc] at hwake
    rw [hc'] at hwake'
    have hunfired := hleft.token.trans hs.unfired
    have hunfired' := hleft'.token.trans hs.unfired'
    -- the clocks stand still, or have both come to the instant
    have hnow : s'.now = t'.now + later := by
      have hbefore := hs.now
      rcases hwait.due with ⟨hdue, hdue'⟩ | ⟨u, hdue, hdue'⟩
      · rw [hleft.nothing wait rfl hdue, hleft'.nothing wait' rfl hdue', hbefore]
      · obtain ⟨u, hu', hu⟩ := hwait.instant? hdue'
        have hge : u + later ≤ s'.now := Wait.le_of_wake? hwake hwait.token hunfired hdue hu
        have hge' : u ≤ t'.now := Wait.le_of_wake? hwake' hwait.token' hunfired' hdue' hu'
        have hle := hleft.wait wait _ rfl hu
        have hle' := hleft'.wait wait' _ rfl hu'
        have hmono := hleft.now
        have hmono' := hleft'.now
        omega
    have heq : wait.wake? s'.signals = wait'.wake? t'.signals :=
      hwait.wake?_eq hnow hunfired hunfired'
    refine ⟨?_, hnow, hunfired, hunfired', ?_⟩
    · rw [hwake, hwake'] at heq
      exact Option.some.inj heq
    · rw [hleft.entry, hleft'.entry]
      exact hs.entry

/-- **Two drivers that are left alone come to like records.** -/
theorem Engine.holds_drive_solo (he : Engine.Keeps later w e e') {c c' : Company World}
    (hc : c.signals = World.signals) (hc' : c'.signals = World.signals)
    (ho : ∀ place s s', c.others place s s' → s.Shelters i k place s')
    (ho' : ∀ place t t', c'.others place t t' → t.Shelters i' k' place t') {begun : Nat} {r : Run}
    (hid : r.id = i') {s t : World}
    (hs : s.Begins i k (begun + later) ((View.elsewhere i later).run r))
    (ht : t.Begins i' k' begun r) :
    (e.drive w ((View.elsewhere i later).run r) k).Holds c (fun _ => True)
      (fun run _ => (e'.drive w r k').Holds c' (fun _ => True)
        (fun run' _ => run = (View.elsewhere i later).run run') t) s := by
  have hsound : (Mirror.solo i i' k k' later e e' w).Sound := Mirror.solo_sound he
  have hdrive := hsound.alike_drive (Eq.refl e.executors) (Eq.refl e'.executors)
    (Mirror.runs_solo.mpr ⟨rfl, hid⟩)
  have hworlds : World.Ahead i i' k k' later s t := by
    refine ⟨?_, hs.unfired, ht.unfired, r, hs.entry, ht.entry⟩
    rw [hs.now, ht.now]
  have hmeets := hdrive.meets (Mirror.solo_meets hc hc' ho ho') hworlds
  refine hmeets.mono fun run _ hrun => hrun.mono fun run' _ hrecord => ?_
  exact (Mirror.runs_solo.mp hrecord.1).1

end

/-! ## Setting a run off -/

/-- The record of a run when it is driven first: it has failed if its workflow is
not valid. -/
def Engine.outset (e : Engine) (w : Workflow) (payload : Value) (options : RunOptions) (now : Nat)
    (id : String) : Run :=
  if w.isValid then e.first w payload options now id
  else (e.first w payload options now id).fail ("Workflow validation failed: " ++ w.summary) now

section

variable {e e' : Engine} {w : Workflow} {payload : Value} {options : RunOptions} {ids : Series}
  {n : Nat} {s : World}

theorem Engine.outset_id (e : Engine) (w : Workflow) (payload : Value) (options : RunOptions)
    (now : Nat) (id : String) : (e.outset w payload options now id).id = id := by
  unfold outset
  split <;> rfl

/-- Seen elsewhere, a run that is set off is another run that is set off. -/
theorem Engine.outset_elsewhere (hconfig : e.config = e'.config) (i i' : String)
    (later now : Nat) : (View.elsewhere i later).run (e'.outset w payload options now i') =
      e.outset w payload options (now + later) i := by
  have hfirst : (View.elsewhere i later).run (e'.first w payload options now i') =
      e.first w payload options (now + later) i := by
    unfold Engine.first
    rw [hconfig]
    rfl
  unfold outset
  split
  · exact hfirst
  · rw [View.run_fail, hfirst]
    rfl

/-- What is known of a run that was entered, when its driver begins. -/
structure World.Opened (i : String) (k now : Nat) (r : Run) (s : World) : Prop where
  begins : s.Begins i k now r
  secure : s.Secure i k
  apart : s.isBehind i = false

/-- The next run is entered. -/
theorem World.Tidy.opened (hs : s.Tidy ids n) {r : Run} (hid : r.id = ids.id (n + 1)) :
    (s.addRun r).2.Opened (ids.id (n + 1)) s.store.tokens s.now r where
  begins := by
    refine ⟨rfl, hid ▸ Store.entry?_register s.store r, ?_⟩
    rw [Bool.eq_false_iff]
    exact fun hfired => Nat.lt_irrefl _ (hs.fired _ hfired)
  secure := by
    refine ⟨?_, Nat.lt_succ_self _, fun e he hk => ?_, ?_⟩
    · rw [Bool.eq_false_iff]
      exact fun hfired => Nat.lt_irrefl _ (hs.fired _ hfired)
    · rcases Store.mem_place he with rfl | hold
      · exact hid
      · exact absurd hk (Nat.ne_of_lt (hs.entries e hold).2)
    · have hafter := hs.addRun hid
      rw [hafter.series, hafter.runs]
      exact Series.issued_last
  apart := hs.isBehind_nextRun

/-- Jobs for other runs come in between. -/
theorem World.Opened.lock {P : String → Prop} {i : String} {k now : Nat} {r : Run} {s' : World}
    (h : s.Opened i k now r) (ho : World.Crowds P none s s') (hi : ¬P i) :
    s'.Opened i k now r where
  begins := ⟨(ho.lock rfl).trans h.begins.now, (ho.passes.entries i hi).trans h.begins.entry,
    (ho.passes.isFired k).trans h.begins.unfired⟩
  secure := h.secure.passes ho.passes fun hP => absurd hP hi
  apart := (ho.passes.isBehind i).trans h.apart

/-- A record is handed in for the run that was entered. -/
theorem World.Opened.saveRun {i : String} {k now : Nat} {r r' : Run} (h : s.Opened i k now r)
    (hid : r'.id = i) (hlive : r.status ≠ .cancelled) :
    (s.saveRun r').1 = r' ∧ (s.saveRun r').2.Opened i k now r' := by
  have hentry : s.store.entry? r'.id = some ⟨r, k⟩ := hid ▸ h.begins.entry
  have hsaved : (s.saveRun r').1 = r' := by
    have hmerge : (s.saveRun r').1 = Store.merge r r' := Store.save_fst (Store.get?_eq hentry)
    rw [hmerge, Store.merge_of_ne hlive]
  have hpasses : s.Passes (· = i) (s.saveRun r').2 := .saveRun (P := (· = i)) hid s
  refine ⟨hsaved, ⟨h.begins.now, ?_, (hpasses.isFired k).trans h.begins.unfired⟩, ?_,
    (hpasses.isBehind i).trans h.apart⟩
  · have hstored : (s.saveRun r').2.store.entry? r'.id = some ⟨(s.saveRun r').1, k⟩ :=
      Store.entry?_save hentry
    rwa [hsaved, hid] at hstored
  · exact h.secure.passes hpasses fun _ _ => id

/-- **Setting a run off enters it** under the next id, whatever jobs for other
runs do in between. -/
theorem Engine.holds_prepare_opened (hs : s.Tidy ids n) (e : Engine) (w : Workflow)
    (payload : Value) (options : RunOptions) :
    (e.prepare w payload options).Holds (crowd (ids.Issued n)) (fun _ => True)
      (fun r s' => r.1 = e.outset w payload options s.now (ids.id (n + 1)) ∧
        s'.Opened (ids.id (n + 1)) r.2 s.now r.1) s := by
  have hnew : ¬ids.Issued n (ids.id (n + 1)) := fun h => h.ne rfl
  rw [← bind_done (e.prepare w payload options), e.prepare_bind]
  refine holds_bind.mpr (holds_read trivial (holds_bind.mpr (holds_read trivial ?_)))
  rw [hs.nextRun]
  intro s₁ ho
  have hcrowds : World.Crowds (ids.Issued n) none s s₁ := ho
  generalize hfirst : e.first w payload options s.now (ids.id (n + 1)) = first
  have hid : first.id = ids.id (n + 1) := hfirst ▸ rfl
  have hopened := (hs.passes hcrowds.passes).opened hid
  rw [show s₁.now = s.now from hcrowds.lock rfl] at hopened
  refine ⟨trivial, ?_⟩
  dsimp only
  rw [bind_done]
  unfold Workflow.check outset
  rw [hfirst]
  split
  · exact ⟨trivial, rfl, hopened⟩
  · have hlive : first.status ≠ .cancelled := hfirst ▸ RunStatus.noConfusion
    generalize hfailed : first.fail _ s.now = failed
    have hid' : failed.id = ids.id (n + 1) := hfailed ▸ hid
    refine holds_bind.mpr ?_
    intro s₂ ho₂
    obtain ⟨hsaved, hopened₂⟩ := (hopened.lock ho₂ hnew).saveRun hid' hlive
    refine ⟨trivial, trivial, trivial, hsaved, ?_⟩
    dsimp only
    rwa [hsaved]

/-! ## Beside others, and alone -/

/-- What a driver hands back has been stored. -/
theorem Engine.holds_drive_stored {c : Company World} (e : Engine) (w : Workflow) {run : Run}
    (token : Nat) (h : s.store.get? run.id = some run) :
    (e.drive w run token).Holds c (fun _ => True)
      (fun run' s' => s'.store.get? run'.id = some run') s := by
  have hsave : ∀ (r : Run) s, (Driver.save r).Holds c (fun _ => True)
      (fun run' s' => s'.store.get? run'.id = some run') s := by
    refine fun r s s₁ _ => ⟨trivial, trivial, ?_⟩
    have hid : (s₁.saveRun r).1.id = r.id := Store.save_id s₁.store r
    dsimp only
    rw [hid]
    exact Store.get?_save s₁.store r
  unfold drive
  split
  · exact ⟨trivial, h⟩
  · refine holds_bind.mpr (holds_read trivial (holds_bind.mpr ((holds_true c _ _).mono ?_)))
    rintro ⟨r, halt⟩ s₁ -
    refine holds_bind.mpr (holds_read trivial ?_)
    have hasked : ∀ (d : Driver) now, (d.isCancelled r >>= fun cancelled =>
        if cancelled then Driver.save (r.cancel now) else Driver.save (r.finish .completed now)).Holds
          c (fun _ => True) (fun run' s' => s'.store.get? run'.id = some run') s₁ := by
      refine fun d now => holds_bind.mpr (holds_read trivial ?_)
      split
      · exact hsave _ _
      · exact hsave _ _
    cases halt with
    | none => exact hasked _ _
    | some reason =>
      cases reason with
      | failed node error => exact hsave _ _
      | timedOut => exact hsave _ _
      | cancelled => exact hasked _ _

section

variable {later : Nat} {i : String} {k : Nat} {t : World}

/-- **A run beside others, and alone**: whoever else there is, a driver that is
left alone comes to the record that executing the run comes to in another
world, seen from here. -/
theorem Engine.holds_solo (he : Engine.Keeps later w e e') {c : Company World}
    (hc : c.signals = World.signals)
    (ho : ∀ place s s', c.others place s s' → s.Shelters i k place s') (ht : t.Tidy ids n)
    (hs : s.Begins i k (t.now + later) (e.outset w payload options (t.now + later) i)) :
    (e.drive w (e.outset w payload options (t.now + later) i) k).Holds c (fun _ => True)
      (fun run _ => (e'.execute w payload options).Holds (crowd (ids.Issued n)) (fun _ => True)
        (fun run' _ => run = (View.elsewhere i later).run run') t) s := by
  have hnew : ¬ids.Issued n (ids.id (n + 1)) := fun h => h.ne rfl
  have hview : (View.elsewhere i later).run
      (e'.outset w payload options t.now (ids.id (n + 1))) =
        e.outset w payload options (t.now + later) i :=
    outset_elsewhere he.config i _ later t.now
  -- for each way in which the other run is set off
  have hdrive : (e.drive w (e.outset w payload options (t.now + later) i) k).Holds c (fun _ => True)
      (fun run _ => ∀ off : { off : Nat × World // off.2.Opened (ids.id (n + 1)) off.1 t.now
          (e'.outset w payload options t.now (ids.id (n + 1))) },
        (e'.drive w (e'.outset w payload options t.now (ids.id (n + 1))) off.1.1).Holds
          (crowd (ids.Issued n)) (fun _ => True)
          (fun run' _ => run = (View.elsewhere i later).run run') off.1.2) s := by
    refine holds_forall fun ⟨⟨k', t'⟩, hopened⟩ => ?_
    rw [← hview] at hs ⊢
    refine holds_drive_solo he hc rfl ho ?_ (e'.outset_id w payload options _ _) hs hopened.begins
    intro place s s' hcrowds
    have hcrowds : World.Crowds (ids.Issued n) place s s' := hcrowds
    exact hcrowds.shelters hnew
  refine hdrive.mono fun run _ hrun => holds_bind.mpr ?_
  refine (e'.holds_prepare_opened ht w payload options).mono ?_
  rintro ⟨r', k'⟩ t' ⟨rfl, hopened⟩
  exact hrun ⟨(k', t'), hopened⟩

/-- What the driver of a sheltered run comes to is stored, and is what the run
comes to alone. -/
theorem Process.ComesTo.alone (he : Engine.Keeps later w e e') (ht : t.Tidy ids n)
    {run run' : Run} {s' t' : World}
    (h : (e.drive w (e.outset w payload options (t.now + later) i) k).ComesTo i k (t.now + later)
      (e.outset w payload options (t.now + later) i) run s')
    (halone : Course (crowd (ids.Issued n)) (e'.execute w payload options) t (.done run') t') :
    run = (View.elsewhere i later).run run' ∧ s'.store.get? i = some run := by
  obtain ⟨s₀, hbegins, hcourse⟩ := h
  have hsolo := Engine.holds_solo (c := shelter i k) he rfl (fun _ _ _ h => h) ht hbegins
  have hrun : run = (View.elsewhere i later).run run' := (halone.holds (hcourse.holds hsolo).2).2
  refine ⟨hrun, ?_⟩
  have hid : run.id = i := hrun ▸ rfl
  have hstored₀ : s₀.store.get? (e.outset w payload options (t.now + later) i).id =
      some (e.outset w payload options (t.now + later) i) := by
    rw [e.outset_id]
    exact Store.get?_eq hbegins.entry
  have hstored := (hcourse.holds (e.holds_drive_stored (c := shelter i k) w k hstored₀)).2
  dsimp only at hstored
  rwa [hid] at hstored

end

end

namespace Schedule

variable {e e' : Engine} {w : Workflow} {payload : Value} {options : RunOptions} {s : Schedule}

/-- A run that waits only for what comes by itself is answered when it is
executed. -/
theorem Tidy.execute_answers (hs : s.Tidy) (hprompt : e.executors.Prompt w) (payload : Value)
    (options : RunOptions) : ∃ run s', s.execute e w payload options = (some run, s') ∧
      Course (crowd (s.world.series.Issued s.world.runs)) (e.execute w payload options) s.world
        (.done run) s'.world := by
  have hp : Servable (e.execute w payload options) (Engine.stops w) :=
    .of_asked (.execute e w payload options)
  have ha : Asks s (e.execute w payload options) := ⟨hs.tame, hp.does, _, hp.within⟩
  have hcomes := hs.comes hp
  have hattended := serve_attends ha hs.idle (Engine.stops w)
  unfold Schedule.execute
  generalize s.serve (Engine.stops w) (e.execute w payload options) = result at *
  obtain ⟨_ | run, s'⟩ := result
  · obtain ⟨q, hserves, -, hstuck⟩ := hcomes
    obtain ⟨wait, hwait⟩ := Option.isSome_iff_exists.mp hstuck.waits
    have hwithin := hserves.within (e.within_execute w payload options)
    have hnone := (of_next?_eq_none hstuck.next).1 wait hwait
    exact (((hwithin.wait hwait).2 hprompt).elim hwait hstuck.asleep hnone).elim
  · exact ⟨run, s', rfl, hattended.course_crowd ha hs.idle fun job hj => (hs.jobs job hj).2⟩

/-- A run that was entered is put into the background. -/
theorem Sheltered.of_opened {i : String} {k now : Nat} {r : Run} (hs : s.world.Opened i k now r)
    (hid : r.id = i) (hnone : s.jobs.filter (·.id = i) = 0) (e : Engine) (w : Workflow) :
    (s.background e w r k).Sheltered i k now r (e.drive w r k) := by
  have hjobs : (s.background e w r k).jobs.filter (·.id = i) =
      {⟨r.id, e.drive w r k, Engine.stops w, false⟩} := by
    rw [jobs_background]
    refine (filter_cons_own hid _).trans ?_
    rw [hnone]
    rfl
  have hsecure := hs.secure
  refine ⟨⟨hsecure.unfired, hsecure.handed, hsecure.own, hsecure.issued⟩, ?_⟩
  refine .driven hjobs (.fresh rfl ⟨hs.begins.now, hs.begins.entry, hs.begins.unfired⟩) ?_
  have hapart := hs.apart
  rw [World.isBehind_eq, Option.isSome_eq_false_iff, Option.isNone_iff_eq_none] at hapart
  rw [← hid] at hapart ⊢
  exact World.lookup_leaveRun hapart

/-- **A run is sheltered** from the moment at which it is put into the
background. -/
theorem Tidy.shelters (hs : s.Tidy) (e : Engine) (w : Workflow) (payload : Value)
    (options : RunOptions) : ∃ k s₁, s.spawn e w payload options = (some s.world.nextRun, s₁) ∧
      s₁.Tidy ∧ s₁.Sheltered s.world.nextRun k s.world.now
        (e.outset w payload options s.world.now s.world.nextRun)
        (e.drive w (e.outset w payload options s.world.now s.world.nextRun) k) := by
  have hp : Servable (e.prepare w payload options) 2 := .of_asked (.prepare e w payload options)
  have ha : Asks s (e.prepare w payload options) := ⟨hs.tame, hp.does, 2, hp.within⟩
  have hids : ∀ job ∈ s.jobs, s.world.series.Issued s.world.runs job.id :=
    fun job hj => (hs.jobs job hj).2
  obtain ⟨r, k, t, hserve, hid, -⟩ := hs.prepares e w payload options
  have hattended := serve_attends ha hs.idle 2
  have hothers := each_serve (C := fun job => s.world.series.Issued s.world.runs job.id)
    (fun _ _ _ h => h) 2 (e.prepare w payload options) hids
  rw [hserve] at hattended hothers
  have hopened := ((hattended.course_crowd ha hs.idle hids).holds
    (e.holds_prepare_opened hs.world w payload options)).2
  rw [← hs.world.nextRun] at hopened
  obtain ⟨hrun, hopened⟩ := hopened
  have hnone : t.jobs.filter (·.id = s.world.nextRun) = 0 := by
    refine Multiset.filter_eq_nil.mpr fun job hj heq => ?_
    exact (hothers job hj).ne (heq.trans hs.world.nextRun)
  have htidy := hs.spawn e w payload options
  have hspawn : s.spawn e w payload options = (some s.world.nextRun, t.background e w r k) := by
    unfold Schedule.spawn
    rw [hserve, ← hid]
  have hsheltered := Sheltered.of_opened hopened hid hnone e w
  rw [hspawn] at htidy
  dsimp only at hrun
  rw [hrun] at hspawn htidy hsheltered
  exact ⟨k, _, hspawn, htidy, hsheltered⟩

/-- **Executing a run beside others** comes to what executing it comes to
elsewhere, seen from here. -/
theorem Tidy.execute_ahead (he : Engine.Keeps later w e e') {t : Schedule} (hs : s.Tidy) (ht : t.Tidy)
    (hnow : s.world.now = t.world.now + later) {run run' : Run} {s' t' : World}
    (h : Course (crowd (s.world.series.Issued s.world.runs)) (e.execute w payload options) s.world
      (.done run) s')
    (h' : Course (crowd (t.world.series.Issued t.world.runs)) (e'.execute w payload options) t.world
      (.done run') t') :
    run = (View.elsewhere s.world.nextRun later).run run' := by
  have hnew : ¬s.world.series.Issued s.world.runs s.world.nextRun :=
    fun hissued => hissued.ne hs.world.nextRun
  have hholds : (e.execute w payload options).Holds (crowd (s.world.series.Issued s.world.runs))
      (fun _ => True) (fun run _ => (e'.execute w payload options).Holds
        (crowd (t.world.series.Issued t.world.runs)) (fun _ => True)
        (fun run' _ => run = (View.elsewhere s.world.nextRun later).run run') t.world) s.world := by
    refine holds_bind.mpr ((e.holds_prepare_opened hs.world w payload options).mono ?_)
    rw [← hs.world.nextRun, hnow]
    rintro ⟨r, k⟩ s₀ ⟨hr, hopened⟩
    dsimp only at hr hopened
    rw [hr] at hopened ⊢
    refine Engine.holds_solo he rfl ?_ ht.world hopened.begins
    exact fun place w₁ w₂ (hcrowds : World.Crowds _ place w₁ w₂) => hcrowds.shelters hnew
  exact (h'.holds (h.holds hholds).2).2

end Schedule

end Automation
