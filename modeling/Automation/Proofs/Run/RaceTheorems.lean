/-
Automation.Proofs.Run.RaceTheorems — a driver hands in the record of its
run while others cancel the run.

The operations of the store happen at once, so what the driver and the
others do lies in one order, and any order is possible. The driver works
on a record of its own: it changes it, hands it in and goes on with what
it is handed back; in the end it decides how the run ends, and hands that
in for the last time (`Race.Action`). Between any two of these the others
may cancel the run, as often as they like, and do with other runs what
they like.

Whoever comes first wins (`Race.cancel_or_handIn`). A cancellation that
comes before the record is handed in for the last time holds, whatever the
driver has decided meanwhile, and no other one does; one that comes after
it changes nothing.
-/
import Automation.Proofs.Run.StoreTheorems

namespace Automation

open Automation.Time (Timestamp)

namespace Race

/-! ## Drivers and others -/

/-- How far the driver has come. -/
inductive Stage where
  | working
  /-- It has decided how the run ends, and not handed that in yet. -/
  | decided
  | ended
  deriving DecidableEq, Repr

/-- The store, and what the driver has of its own. -/
structure State where
  store : Store
  record : Run
  stage : Stage := .working
  deriving Repr

/-- How the driver decides that the run ends. -/
inductive Decision where
  | completed
  | failed (error : String)
  | cancelled

/-- The record of a run that ends so. -/
def Decision.apply (decision : Decision) (run : Run) (now : Nat) : Run :=
  match decision with
  | .completed => run.finish .completed now
  | .failed error => run.fail error now
  | .cancelled => run.cancel now

theorem Decision.isTerminal (decision : Decision) (run : Run) (now : Nat) :
    (decision.apply run now).status.isTerminal = true := by
  cases decision with
  | completed => rfl
  | failed error => rfl
  | cancelled => exact Run.cancel_terminal run now

@[simp] theorem Decision.apply_id (decision : Decision) (run : Run) (now : Nat) :
    (decision.apply run now).id = run.id := by
  cases decision with
  | completed => rfl
  | failed error => rfl
  | cancelled => exact Run.cancel_id run now

/-- What others do with other runs. -/
inductive Operation where
  | register (run : Run)
  | save (run : Run)
  | cancel (id : String) (now : Nat)
  | remove (id : String)

/-- The run that an operation is about. -/
def Operation.id : Operation → String
  | .register run | .save run => run.id
  | .cancel id _ | .remove id => id

/-- What an operation makes of the store. -/
def Operation.apply (store : Store) : Operation → Store
  | .register run => (store.register run).2
  | .save run => (store.save run).2
  | .cancel id now => (store.cancel id now).2
  | .remove id => (store.remove id).2

/-- What the driver or somebody else does at once. -/
inductive Action where
  /-- The driver takes its record to something else, of the same id. -/
  | work (run : Run)
  | save
  | decide (decision : Decision) (now : Nat)
  /-- The driver hands in what it has decided. -/
  | handIn
  /-- Somebody cancels the run. -/
  | cancel (now : Nat)
  | elsewhere (operation : Operation)

/-- What is answered. -/
inductive Event where
  | saved (returned : Run)
  | cancelled (now : Nat) (answer : Bool)

/-- Whether a cancellation was answered by true. -/
def Event.isWon : Event → Bool
  | .cancelled _ answer => answer
  | .saved _ => false

/-- An answer in the light of a run that was cancelled: what is handed back
ends as that run, and no cancellation holds. -/
def Event.Honours (r : Run) : Event → Prop
  | .saved returned => returned.EndsAs r
  | .cancelled _ answer => answer = false

theorem Event.Honours.trans {event : Event} {r r' : Run} (h : event.Honours r)
    (hr : r.EndsAs r') : event.Honours r' := by
  cases event with
  | saved returned => exact Run.EndsAs.trans h hr
  | cancelled now answer => exact h

theorem Event.Honours.isWon {event : Event} {r : Run} (h : event.Honours r) :
    event.isWon = false := by
  cases event with
  | saved returned => rfl
  | cancelled now answer => exact h

namespace State

/-- A run has just been registered by its driver. -/
def start (store : Store) (run : Run) : State where
  store := (store.register run).2
  record := run

/-- The driver hands in its record, and goes on with what it is handed
back. -/
def handOver (s : State) (stage : Stage) : State where
  store := (s.store.save s.record).2
  record := (s.store.save s.record).1
  stage

/-- One action; nothing happens if it is not the time for it. -/
def next (s : State) : Action → State
  | .work run =>
    if s.stage = .working then { s with record := { run with id := s.record.id } } else s
  | .save => if s.stage = .working then s.handOver .working else s
  | .decide decision now =>
    if s.stage = .working then
      { s with record := decision.apply s.record now, stage := .decided }
    else s
  | .handIn => if s.stage = .decided then s.handOver .ended else s
  | .cancel now => { s with store := (s.store.cancel s.record.id now).2 }
  | .elsewhere operation =>
    if operation.id = s.record.id then s else { s with store := operation.apply s.store }

/-- What is answered to an action. -/
def event? (s : State) : Action → Option Event
  | .save => if s.stage = .working then some (.saved (s.store.save s.record).1) else none
  | .handIn => if s.stage = .decided then some (.saved (s.store.save s.record).1) else none
  | .cancel now => some (.cancelled now (s.store.cancel s.record.id now).1)
  | _ => none

/-- One action after the other. -/
def run (s : State) : List Action → State
  | [] => s
  | action :: rest => (s.next action).run rest

/-- What is answered to the actions, in order. -/
def events (s : State) : List Action → List Event
  | [] => []
  | action :: rest => (s.event? action).toList ++ (s.next action).events rest

/-- The stored record of the run. -/
def stored? (s : State) : Option Run :=
  s.store.get? s.record.id

/-! ## One action -/

/-- Operations on other runs leave the entry of a run alone. -/
theorem entry?_elsewhere {id : String} {store : Store} {operation : Operation}
    (h : operation.id ≠ id) : Store.entry? (operation.apply store) id = store.entry? id := by
  cases operation with
  | register run => exact Store.entry?_register_ne h
  | save run => exact Store.entry?_save_ne h
  | cancel id' now => exact Store.entry?_cancel_ne h now
  | remove id' => exact Store.entry?_remove_ne h

theorem stored?_elsewhere {s : State} {operation : Operation} :
    (s.next (.elsewhere operation)).stored? = s.stored? := by
  by_cases h : operation.id = s.record.id
  · simp [next, h]
  · simp [next, h, stored?, Store.get?, entry?_elsewhere h]

/-- What is handed in is merged with what is stored. -/
theorem save_eq_merge {s : State} {r : Run} (h : s.stored? = some r) :
    (s.store.save s.record).1 = Store.merge r s.record := by
  obtain ⟨e, he, rfl⟩ := Store.exists_entry? h
  rw [Store.save_of_entry he]

theorem stored?_handOver {s : State} {r : Run} (h : s.stored? = some r) (stage : Stage) :
    (s.handOver stage).stored? = some (s.store.save s.record).1 := by
  obtain ⟨e, he, rfl⟩ := Store.exists_entry? h
  unfold stored? handOver
  rw [Store.save_id]
  exact Store.get?_eq (Store.entry?_save he)

theorem stored?_cancel_of_live {s : State} {r : Run} (h : s.stored? = some r)
    (hlive : r.status.isTerminal = false) (now : Nat) :
    (s.next (.cancel now)).stored? = some (r.finish .cancelled now) := by
  obtain ⟨e, he, rfl⟩ := Store.exists_entry? h
  exact Store.get?_eq (Store.entry?_cancel he hlive now)

/-- Cancelling a run that has ended changes nothing and says false. -/
theorem cancel_of_terminal {s : State} {r : Run} (h : s.stored? = some r)
    (hend : r.status.isTerminal = true) (now : Nat) :
    s.next (.cancel now) = s ∧ s.event? (.cancel now) = some (.cancelled now false) := by
  obtain ⟨e, he, rfl⟩ := Store.exists_entry? h
  simp [next, event?, Store.cancel_of_terminal he hend]

/-! ## Invariants -/

/-- What holds in every order: the run is known, and what is decided is an
end. -/
structure Sound (s : State) : Prop where
  known : ∃ r, s.stored? = some r
  decided : s.stage = .decided → s.record.status.isTerminal = true

theorem Sound.start (store : Store) (run : Run) : (start store run).Sound where
  known := ⟨run, Store.get?_eq (Store.entry?_register store run)⟩
  decided := fun h => by cases h

theorem Sound.handOver {s : State} (hs : s.Sound) {stage : Stage} (h : stage ≠ .decided) :
    (s.handOver stage).Sound := by
  obtain ⟨r, hr⟩ := hs.known
  exact ⟨⟨_, stored?_handOver hr stage⟩, fun hd => absurd hd h⟩

theorem Sound.next {s : State} (hs : s.Sound) (action : Action) : (s.next action).Sound := by
  obtain ⟨r, hr⟩ := hs.known
  cases action with
  | work run =>
    by_cases hw : s.stage = .working
    · simp only [State.next, if_pos hw]
      exact ⟨⟨r, hr⟩, fun hd => by cases hw.symm.trans hd⟩
    · simpa only [State.next, if_neg hw] using hs
  | save =>
    by_cases hw : s.stage = .working
    · simpa only [State.next, if_pos hw] using hs.handOver (by decide)
    · simpa only [State.next, if_neg hw] using hs
  | decide decision now =>
    by_cases hw : s.stage = .working
    · simp only [State.next, if_pos hw]
      refine ⟨⟨r, ?_⟩, fun _ => decision.isTerminal s.record now⟩
      rw [← hr]
      simp only [stored?, Decision.apply_id]
    · simpa only [State.next, if_neg hw] using hs
  | handIn =>
    by_cases hd : s.stage = .decided
    · simpa only [State.next, if_pos hd] using hs.handOver (by decide)
    · simpa only [State.next, if_neg hd] using hs
  | cancel now =>
    cases hend : r.status.isTerminal with
    | true => rwa [(cancel_of_terminal hr hend now).1]
    | false => exact ⟨⟨_, stored?_cancel_of_live hr hend now⟩, hs.decided⟩
  | elsewhere operation =>
    refine ⟨⟨r, stored?_elsewhere.trans hr⟩, ?_⟩
    by_cases ho : operation.id = s.record.id
    · simpa only [State.next, if_pos ho] using hs.decided
    · simpa only [State.next, if_neg ho] using hs.decided

theorem Sound.run {s : State} (hs : s.Sound) (actions : List Action) : (s.run actions).Sound := by
  induction actions generalizing s with
  | nil => exact hs
  | cons action rest ih => exact ih (hs.next action)

/-! ## After a cancellation -/

/-- An action after the run was cancelled: it stays stored with the end that
it was given, what is handed back has that end, and no other cancellation
holds. -/
theorem next_of_cancelled {s : State} {r : Run} (hr : s.stored? = some r)
    (hc : r.status = .cancelled) (action : Action) :
    (∃ r', (s.next action).stored? = some r' ∧ r'.EndsAs r) ∧
      ∀ event ∈ s.event? action, event.Honours r := by
  have hend : r.status.isTerminal = true := by rw [hc]; rfl
  have hmerge : (s.store.save s.record).1.EndsAs r := by
    rw [save_eq_merge hr]
    exact Store.merge_of_cancelled hc
  have hstays : ∃ r', s.stored? = some r' ∧ r'.EndsAs r := ⟨r, hr, .rfl⟩
  have hhands : ∀ stage, ∃ r', (s.handOver stage).stored? = some r' ∧ r'.EndsAs r :=
    fun stage => ⟨_, stored?_handOver hr stage, hmerge⟩
  have hsaid : ∀ {P : Prop} [Decidable P],
      ∀ event ∈ if P then some (Event.saved (s.store.save s.record).1) else none,
        event.Honours r := by
    intro P _ event hevent
    by_cases hp : P
    · rw [if_pos hp, Option.mem_some_iff] at hevent
      subst hevent
      exact hmerge
    · rw [if_neg hp] at hevent
      cases hevent
  cases action with
  | work run =>
    refine ⟨?_, fun _ h => by cases h⟩
    by_cases hw : s.stage = .working
    · simp only [State.next, if_pos hw]
      exact hstays
    · simpa only [State.next, if_neg hw] using hstays
  | save =>
    refine ⟨?_, hsaid⟩
    by_cases hw : s.stage = .working
    · simpa only [State.next, if_pos hw] using hhands .working
    · simpa only [State.next, if_neg hw] using hstays
  | decide decision now =>
    refine ⟨?_, fun _ h => by cases h⟩
    by_cases hw : s.stage = .working
    · simpa only [State.next, if_pos hw, stored?, Decision.apply_id] using hstays
    · simpa only [State.next, if_neg hw] using hstays
  | handIn =>
    refine ⟨?_, hsaid⟩
    by_cases hd : s.stage = .decided
    · simpa only [State.next, if_pos hd] using hhands .ended
    · simpa only [State.next, if_neg hd] using hstays
  | cancel now =>
    obtain ⟨hnext, hevent⟩ := cancel_of_terminal hr hend now
    rw [hnext, hevent]
    refine ⟨hstays, ?_⟩
    intro event h
    rw [Option.mem_some_iff] at h
    subst h
    rfl
  | elsewhere operation =>
    exact ⟨⟨r, stored?_elsewhere.trans hr, .rfl⟩, fun _ h => by cases h⟩

theorem run_of_cancelled (actions : List Action) {s : State} {r : Run} (hr : s.stored? = some r)
    (hc : r.status = .cancelled) :
    (∃ r', (s.run actions).stored? = some r' ∧ r'.EndsAs r) ∧
      ∀ event ∈ s.events actions, event.Honours r := by
  induction actions generalizing s r with
  | nil => exact ⟨⟨r, hr, .rfl⟩, fun _ h => by cases h⟩
  | cons action rest ih =>
    obtain ⟨⟨r₁, hr₁, hends₁⟩, hevent⟩ := next_of_cancelled hr hc action
    obtain ⟨⟨r₂, hr₂, hends₂⟩, hevents⟩ := ih hr₁ (hends₁.status.trans hc)
    refine ⟨⟨r₂, hr₂, hends₂.trans hends₁⟩, ?_⟩
    intro event h
    simp only [State.events, List.mem_append] at h
    rcases h with h | h
    · exact hevent event (Option.mem_toList.mp h)
    · exact (hevents event h).trans hends₁

/-! ## After the last record was handed in -/

/-- An action after the driver has ended: the stored record is left as it is,
and no cancellation holds. -/
theorem next_of_ended {s : State} {r : Run} (he : s.stage = .ended) (hr : s.stored? = some r)
    (hend : r.status.isTerminal = true) (action : Action) :
    (s.next action).stage = .ended ∧ (s.next action).stored? = some r ∧
      ∀ event ∈ s.event? action, event.isWon = false := by
  cases action with
  | work run => simp [State.next, event?, he, hr]
  | save => simp [State.next, event?, he, hr]
  | decide decision now => simp [State.next, event?, he, hr]
  | handIn => simp [State.next, event?, he, hr]
  | cancel now =>
    obtain ⟨hnext, hevent⟩ := cancel_of_terminal hr hend now
    rw [hnext, hevent]
    simp [he, hr, Event.isWon]
  | elsewhere operation =>
    refine ⟨?_, stored?_elsewhere.trans hr, fun _ h => by cases h⟩
    by_cases ho : operation.id = s.record.id
    · simpa only [State.next, if_pos ho] using he
    · simpa only [State.next, if_neg ho] using he

theorem run_of_ended (actions : List Action) {s : State} {r : Run} (he : s.stage = .ended)
    (hr : s.stored? = some r) (hend : r.status.isTerminal = true) :
    (s.run actions).stored? = some r ∧ ∀ event ∈ s.events actions, event.isWon = false := by
  induction actions generalizing s with
  | nil => exact ⟨hr, fun _ h => by cases h⟩
  | cons action rest ih =>
    obtain ⟨he₁, hr₁, hevent⟩ := next_of_ended he hr hend action
    obtain ⟨hr₂, hevents⟩ := ih he₁ hr₁
    refine ⟨hr₂, ?_⟩
    intro event h
    simp only [State.events, List.mem_append] at h
    rcases h with h | h
    · exact hevent event (Option.mem_toList.mp h)
    · exact hevents event h

/-! ## Who comes first -/

/-- An answer that a cancellation holds is one to a cancellation of a run that
has not ended. -/
theorem live_of_isWon {s : State} {r : Run} (hr : s.stored? = some r) {action : Action}
    {event : Event} (hevent : s.event? action = some event) (hwon : event.isWon = true) :
    (∃ now, action = .cancel now) ∧ r.status.isTerminal = false := by
  unfold event? at hevent
  split at hevent
  · split at hevent <;> cases hevent
    cases hwon
  · split at hevent <;> cases hevent
    cases hwon
  · next now =>
    cases hevent
    refine ⟨⟨now, rfl⟩, ?_⟩
    obtain ⟨r', hr', hlive⟩ := Store.cancel_fst.mp hwon
    rw [show r = r' from Option.some.inj (hr.symm.trans hr')]
    exact hlive
  · cases hevent

/-- One cancellation holds at most. -/
theorem countP_isWon_le (actions : List Action) {s : State} (hs : s.Sound) :
    (s.events actions).countP Event.isWon ≤ 1 := by
  induction actions generalizing s with
  | nil => exact Nat.zero_le 1
  | cons action rest ih =>
    have hrest := ih (hs.next action)
    obtain ⟨r, hr⟩ := hs.known
    unfold events
    cases hevent : s.event? action with
    | none => simpa using hrest
    | some event =>
      cases hwon : event.isWon with
      | false => simpa [hwon] using hrest
      | true =>
        obtain ⟨⟨now, rfl⟩, hlive⟩ := live_of_isWon hr hevent hwon
        -- from here on the run is stored as cancelled, so no other one holds
        have hnone : ((s.next (.cancel now)).events rest).countP Event.isWon = 0 := by
          refine List.countP_eq_zero.mpr ?_
          intro e he
          have hhonours := (run_of_cancelled rest (stored?_cancel_of_live hr hlive now) rfl).2 e he
          simp [hhonours.isWon]
        simp [hwon, hnone]

end State

/-- **Whoever comes first wins.** Of all cancellations one holds at most. If
one holds, whatever the driver has decided by then, the record that is
stored from then on and every record that is handed back are cancelled, with
the dates of that cancellation. If the driver hands in first what it has
decided, no cancellation holds from then on, and the stored record stays. -/
theorem cancel_or_handIn (store : Store) (run : Run) (before after : List Action) :
    let s := (State.start store run).run before
    ((State.start store run).events before).countP Event.isWon ≤ 1 ∧
    (∀ now, s.event? (.cancel now) = some (.cancelled now true) →
      ∃ r, s.stored? = some r ∧ r.status.isTerminal = false ∧
        (∃ r', ((s.next (.cancel now)).run after).stored? = some r' ∧
          r'.EndsAs (r.finish .cancelled now)) ∧
        ∀ event ∈ (s.next (.cancel now)).events after, event.Honours (r.finish .cancelled now)) ∧
    (s.stage = .decided →
      ∃ r, (s.next .handIn).stored? = some r ∧ r.status.isTerminal = true ∧
        ((s.next .handIn).run after).stored? = some r ∧
        ∀ event ∈ (s.next .handIn).events after, event.isWon = false) := by
  intro s
  have hsound : s.Sound := (State.Sound.start store run).run before
  obtain ⟨r, hr⟩ := hsound.known
  refine ⟨State.countP_isWon_le before (.start store run), ?_, ?_⟩
  · intro now hwon
    obtain ⟨_, hlive⟩ := State.live_of_isWon hr hwon rfl
    have hcancelled := State.stored?_cancel_of_live hr hlive now
    exact ⟨r, hr, hlive, State.run_of_cancelled after hcancelled rfl⟩
  · intro hd
    have hnext : s.next .handIn = s.handOver .ended := if_pos hd
    have hend : (s.store.save s.record).1.status.isTerminal = true := by
      rcases Store.save_status s.store s.record with h | h
      · rw [h, hsound.decided hd]
      · rw [h]
        rfl
    rw [hnext]
    exact ⟨_, State.stored?_handOver hr .ended, hend,
      State.run_of_ended after rfl (State.stored?_handOver hr .ended) hend⟩

/-- A driver that has decided that its run is completed, and a cancellation
just before and just after it hands that in. -/
theorem cancel_around_handIn :
    let s := (State.start {} default).run [.save, .decide .completed 5]
    s.record.status = .completed ∧
    (∃ r, ((s.next (.cancel 7)).run [.handIn]).stored? = some r ∧ r.status = .cancelled ∧
      r.completedAt = some (.reading 7)) ∧
    (∃ r, ((s.next .handIn).run [.cancel 7]).stored? = some r ∧ r.status.isTerminal = true) := by
  intro s
  have hbefore := cancel_or_handIn {} default [.save, .decide .completed 5] [.handIn]
  have hafter := cancel_or_handIn {} default [.save, .decide .completed 5] [.cancel 7]
  refine ⟨rfl, ?_, ?_⟩
  · obtain ⟨r, _, _, ⟨r', hr', hends⟩, _⟩ := hbefore.2.1 7 rfl
    exact ⟨r', hr', hends.status, hends.completedAt⟩
  · obtain ⟨r, _, hend, hr, _⟩ := hafter.2.2 rfl
    exact ⟨r, hr, hend⟩

end Race

end Automation
