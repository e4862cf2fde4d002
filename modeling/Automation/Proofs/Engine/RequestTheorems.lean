/-
Automation.Proofs.Engine.RequestTheorems — what requests do to runs in the
background.

Setting a run off, executing one, looking at the store, cancelling, waiting
and fetching a result all keep to the pact of requests. For a run that is
executed at once this comes from the pact of its driver: nobody cancels a
run while the request that executes it is being served, and what its driver
does concerns no run in the background (`keeps_execute`).
-/
import Automation.Proofs.Engine.StopTheorems
import Automation.Proofs.Engine.WorldTheorems

namespace Automation

open Process
open Automation.Json (Value)

/-! ## Setting runs off -/

/-- The next id and the next token have not been used. -/
structure World.Free (w : World) : Prop where
  entry : w.store.entry? w.nextRun = none
  lookup : w.background.lookup w.nextRun = none
  fired : w.store.isFired w.store.tokens = false

theorem World.Fine.free {w : World} {notes : String → Option Cancellation} (hf : w.Fine notes) :
    w.Free :=
  ⟨hf.entry?_nextRun, hf.lookup_nextRun, hf.isFired_tokens⟩

theorem World.isDriven_of_none {w : World} {id : String} (h : w.background.lookup id = none) :
    w.isDriven id = false := by
  unfold isDriven
  simp [h]

theorem World.Around.nextRun {w w' : World} (h : w.Around w') : w'.nextRun = w.nextRun := by
  unfold World.nextRun
  rw [h.series, h.runs]

theorem World.Free.around {w w' : World} (hfree : w.Free) (h : w.Around w') : w'.Free := by
  have hd := isDriven_of_none hfree.lookup
  refine ⟨?_, ?_, ?_⟩
  · rw [h.nextRun, h.entries _ hd, hfree.entry]
  · rw [h.nextRun, h.fates _ hd, hfree.lookup]
  · rw [h.tokens, h.isFired, hfree.fired]

/-- A run in the foreground that was not cancelled. -/
structure Apart (i : String) (k : Nat) (w : World) : Prop where
  known : Known i k w none
  lookup : w.background.lookup i = none

theorem Apart.around {i : String} {k : Nat} {w w' : World} (h : Apart i k w) (ho : w.Around w') :
    Apart i k w' :=
  have hd := World.isDriven_of_none h.lookup
  ⟨ho.known hd h.known, (ho.fates i hd).trans h.lookup⟩

/-- What the driver of such a run does is what a request may do. -/
theorem Apart.tends {i : String} {k : Nat} {w w' : World} (h : Apart i k w)
    (hown : Cares i k none w w') : w.Tends w' ∧ Apart i k w' := by
  obtain ⟨hk, hm, -⟩ := hown h.known
  refine ⟨.of_minds hm h.known hk h.lookup, hk, ?_⟩
  rw [hm.background]
  exact h.lookup

namespace Engine

variable (e : Engine) (w : Workflow) (payload : Value) (options : RunOptions)

/-- A run that was set off is ready to be driven. -/
theorem keeps_prepare {s : World} (hfree : s.Free) :
    (e.prepare w payload options).Keeps requests (fun (run, token) s _ =>
      Apart run.id token s ∧ Ready run.id token run s none) s () := by
  unfold prepare
  refine keeps_bind.mpr (keeps_read (keeps_bind.mpr (keeps_read (keeps_bind.mpr ?_))))
  generalize Context.seed w payload options.overrides e.config.environment (.reading s.now) = context
  generalize hrun : Run.start w s.nextRun payload context options.source s.now = run
  obtain ⟨hid, hlive, hnodes⟩ : run.id = s.nextRun ∧ run.status = .running ∧ run.nodes = [] := by
    rw [← hrun]
    exact ⟨rfl, rfl, rfl⟩
  refine keeps_stepLocked ?_
  intro s₁ g₁ ho
  have hfree₁ := hfree.around ho
  have hid₁ : run.id = s₁.nextRun := hid.trans ho.nextRun.symm
  have hnone : s₁.store.entry? run.id = none := by
    rw [hid₁]
    exact hfree₁.entry
  have hne : run.status ≠ .cancelled := by simp [hlive]
  refine ⟨.addRun hid₁ hnone hne, ?_⟩
  have hstored : (s₁.addRun run).2.store.entry? run.id = some ⟨run, (s₁.addRun run).1⟩ :=
    Store.entry?_register s₁.store run
  have hapart : Apart run.id (s₁.addRun run).1 (s₁.addRun run).2 := by
    refine ⟨World.known_addRun hfree₁.fired hne, ?_⟩
    rw [hid₁]
    exact hfree₁.lookup
  generalize (s₁.addRun run).1 = token at hstored hapart ⊢
  generalize (s₁.addRun run).2 = s₂ at hstored hapart ⊢
  cases w.isValid with
  | true =>
    refine keeps_done ⟨hapart, Or.inl ⟨hlive, hapart.known, rfl, ?_, Or.inl hlive, ?_, ?_⟩⟩
    · intro r hr
      rw [hnodes] at hr
      cases hr
    · exact fun _ => ⟨run, hstored, hlive, rfl⟩
    · rintro c ⟨⟩
  | false =>
    -- a run of a workflow that is not valid has failed at once
    simp only [Bool.false_eq_true, if_false]
    generalize hfailed : run.fail ("Workflow validation failed: " ++ w.summary) s.now = failed
    obtain ⟨hid', hstatus⟩ : failed.id = run.id ∧ failed.status = .failed := by
      rw [← hfailed]
      exact ⟨rfl, rfl⟩
    refine keeps_bind.mpr (Driver.keeps_save ?_)
    intro s₃ g₃ ho₃
    have hapart₃ := hapart.around ho₃
    have hne' : failed.status ≠ .cancelled := by simp [hstatus]
    obtain ⟨hk₄, hcares⟩ := hapart₃.known.cares_saveRun hid' (fun _ => hne') fun c h => by cases h
    obtain ⟨hown, hapart₄⟩ := hapart₃.tends hcares
    have hentry := hapart₃.known.entry?_saveRun hid'
    rw [hapart₃.known.saveRun_of_none hid'] at hentry ⊢
    refine ⟨hown, keeps_done ?_⟩
    rw [hid']
    refine ⟨hapart₄, Or.inr ⟨hk₄, hentry, ?_, fun c h => by cases h⟩⟩
    rw [hstatus]
    rfl

/-- Executing a run keeps to the pact of requests. -/
theorem keeps_execute {s : World} (hfree : s.Free) :
    (e.execute w payload options).Keeps requests (fun _ _ _ => True) s () := by
  refine keeps_bind.mpr ((e.keeps_prepare w payload options hfree).mono ?_)
  rintro ⟨run, token⟩ s₁ ⟨⟩ ⟨hapart, hready⟩
  have hdrive : (e.drive w run token).Keeps requests (fun run' s _ =>
      Final run.id token run' s none ∧ Apart run.id token s) s₁ () := by
    have hsignals : requests.signals = (cancellable run.id token).signals := rfl
    refine (e.keeps_drive w hready).carry (Apart run.id token) hsignals ?_ ?_ hapart
    · intro waits s s₁ g g₁ h ho
      have hd := World.isDriven_of_none h.lookup
      exact ⟨.quiet ho.now (ho.entries _ hd) (ho.isFired token), h.around ho⟩
    · exact fun _ _ _ h hown => h.tends hown
  exact hdrive.mono fun _ _ _ _ => trivial

end Engine

/-! ## All requests -/

/-- What can be asked, and how often that stops at most. -/
inductive Asked : {α : Type} → Process World α → Nat → Prop where
  | execute (e : Engine) (w : Workflow) (payload : Value) (options : RunOptions) :
      Asked (e.execute w payload options) (Engine.stops w)
  | prepare (e : Engine) (w : Workflow) (payload : Value) (options : RunOptions) :
      Asked (e.prepare w payload options) 2
  | pass (instant : Nat) : Asked (.pause { due := .instant instant }) 1
  | join (id : String) :
      Asked (.pause { due := .run id } >>= fun _ => .step (·.fetchRun id)) 1
  | inspect {β : Type} (look : Store → β) : Asked (.readLocked fun w => look w.store) 1
  | cancel (id : String) : Asked (.stepLocked (·.cancelRun id)) 1

variable {α : Type} {p : Process World α} {n : Nat} {w : World}

/-- Whoever waits for a run finds that it has ended. -/
theorem World.hasEnded_of_wake {id : String} {wake : Wake}
    (h : Wait.wake? { due := .run id } w.signals = some wake) : w.hasEnded id = true := by
  unfold Wait.wake? at h
  simp only [Option.any_none, Bool.false_eq_true, if_false] at h
  split at h
  · next hcome => exact hcome
  · cases h

theorem World.isDriven_of_hasEnded {id : String} (h : w.hasEnded id = true) :
    w.isDriven id = false := by
  obtain ⟨run, hrun⟩ := hasEnded_iff.mp h
  unfold isDriven
  simp [hrun]

theorem Asked.within (h : Asked p n) : p.Within (fun _ => True) n := by
  cases h with
  | execute e w payload options =>
    exact (e.within_execute w payload options).mono (fun _ _ => trivial) (Nat.le_refl _)
  | prepare e w payload options => exact e.within_prepare w payload options
  | pass instant => exact ⟨trivial, fun _ => trivial⟩
  | join id => exact ⟨trivial, fun _ _ => trivial⟩
  | inspect look => exact fun _ => trivial
  | cancel id => exact fun _ => trivial

theorem Asked.keeps (h : Asked p n) (hfree : w.Free) :
    p.Keeps requests (fun _ _ _ => True) w () := by
  cases h with
  | execute e flow payload options => exact e.keeps_execute flow payload options hfree
  | prepare e flow payload options =>
    exact (e.keeps_prepare flow payload options hfree).mono fun _ _ _ _ => trivial
  | pass instant => exact fun _ _ _ _ _ => trivial
  | join id =>
    exact fun _ _ _ _ hw =>
      ⟨.fetchRun (World.isDriven_of_hasEnded (World.hasEnded_of_wake hw)), trivial⟩
  | inspect look => exact fun _ _ _ => ⟨.rfl, trivial⟩
  | cancel id => exact keeps_stepLocked fun w₁ _ _ => ⟨.cancelRun w₁ id, trivial⟩

theorem Asked.rests (h : Asked p n) (hfree : w.Free) :
    p.Rests requests (fun _ _ _ => True) w () :=
  fun _ _ ho => h.keeps (hfree.around ho)

end Automation
