/-
Automation.Proofs.Engine.VariablesTheorems — the variables of a run, at
every moment.

What is stored of a run shows the variables that its records leave of those
it was seeded with, and each record shows the variables that it found
(`World.Shows`). The driver keeps this since it hands in nothing else
(`Driver.hands_bystanders`). The others may do what they like but for
writing the nodes and the context of the run (`bystanders`); they may
cancel it and forget it.

`variables_follow_records` says so of every moment of a run that is
executed at once, and of one that is set off and driven later. What an
attempt was about to add when it failed, was cut off or was retried is not
among the variables, for only the output of a completed node is
(`NodeRun.leave`).
-/
import Automation.Proofs.Engine.ClosingTheorems

namespace Automation

open Process
open Automation.Json (Value Fields)

/-! ## Bystanders -/

/-- The others do not write the nodes or the context of a run. -/
structure World.Bystanding (id : String) (s s' : World) : Prop where
  tokens : s.TokensStay s'
  entry : ∀ entry', s'.store.entry? id = some entry' → ∃ entry, s.store.entry? id = some entry ∧
    entry'.run.nodes = entry.run.nodes ∧ entry'.run.context = entry.run.context

theorem World.Bystanding.rfl {id : String} {s : World} : s.Bystanding id s :=
  ⟨fun _ h => h, fun entry h => ⟨entry, h, Eq.refl _, Eq.refl _⟩⟩

theorem World.Bystanding.trans {id : String} {s s₁ s₂ : World} (h : s.Bystanding id s₁)
    (h' : s₁.Bystanding id s₂) : s.Bystanding id s₂ where
  tokens token hf := h'.tokens token (h.tokens token hf)
  entry entry₂ he := by
    obtain ⟨entry₁, he₁, hnodes₁, hcontext₁⟩ := h'.entry entry₂ he
    obtain ⟨entry, he, hnodes, hcontext⟩ := h.entry entry₁ he₁
    exact ⟨entry, he, hnodes₁.trans hnodes, hcontext₁.trans hcontext⟩

/-- The company that does not write the nodes or the context of a run. -/
def bystanders (id : String) : Company World where
  signals := World.signals
  others _ := World.Bystanding id
  others_refl _ _ := .rfl
  others_trans _ _ _ _ := .trans

/-! ## What is stored -/

/-- What is stored of a run says what its records say. -/
def World.Shows (s : World) (id : String) (w : Workflow) (seed : Fields) : Prop :=
  ∀ entry, s.store.entry? id = some entry → entry.run.Recorded w seed

namespace World.Shows

variable {s s' : World} {id : String} {w : Workflow} {seed : Fields} {run : Run}

theorem of_none (h : s.store.entry? id = none) : s.Shows id w seed := by
  intro entry he
  cases h.symm.trans he

theorem bystanding (h : s.Shows id w seed) (ho : s.Bystanding id s') : s'.Shows id w seed := by
  intro entry' he'
  obtain ⟨entry, he, hnodes, hcontext⟩ := ho.entry entry' he'
  exact (h entry he).congr hnodes hcontext

/-- Entering a run that is recorded. -/
theorem register (hid : run.id = id) (hrun : run.Recorded w seed) :
    (s.addRun run).2.Shows id w seed := by
  intro entry he
  subst hid
  cases (Store.entry?_register s.store run).symm.trans he
  exact hrun

/-- Handing in a run that is recorded. -/
theorem save (hid : run.id = id) (hrun : run.Recorded w seed) :
    (s.saveRun run).2.Shows id w seed := by
  intro entry he
  subst hid
  rw [World.saveRun_store] at he
  cases hstored : s.store.entry? run.id with
  | none =>
    rw [Store.save_of_none hstored] at he
    cases (Store.entry?_register s.store run).symm.trans he
    exact hrun
  | some e =>
    cases (Store.entry?_save hstored).symm.trans he
    exact hrun.echoes (Store.save_echoes s.store run)

end World.Shows

/-! ## Runs -/

/-- The variables that a run is seeded with. -/
def Context.seedVars (w : Workflow) (payload : Value) (overrides : Overrides) : Fields :=
  ((defaults w.vars).merge (payloadFields payload)).merge overrides.vars

/-- A driver in such company keeps what is stored. -/
theorem Driver.hands_bystanders (d : Driver) (first : Run) :
    d.Hands (bystanders first.id) (·.Shows first.id d.workflow first.context.vars) first where
  signals := rfl
  others _ _ _ _ := World.Shows.bystanding
  services _ _ h := h
  tokens _ _ _ ho := ho.tokens
  save _ _ _ hid hrun := .save hid hrun

namespace Engine

variable (e : Engine) (w : Workflow) (payload : Value) (options : RunOptions)

/-- Setting a run off: it is entered with the variables of its seed. -/
theorem holds_prepare_shows {s : World} (hnew : s.store.entry? s.nextRun = none) :
    (e.prepare w payload options).Holds (bystanders s.nextRun)
      (·.Shows s.nextRun w (Context.seedVars w payload options.overrides))
      (fun r _ => r.1.id = s.nextRun ∧ r.1.nodes = [] ∧
        r.1.context.vars = Context.seedVars w payload options.overrides) s := by
  have hvars : ∀ {run}, e.SetsOff w payload options s run →
      run.context.vars = Context.seedVars w payload options.overrides :=
    fun h => congrArg Context.vars h.context
  refine (holds_prepare (fun _ h => h) ?_ ?_ (.of_none hnew)).mono ?_
  · exact fun _ _ => World.Shows.bystanding
  · intro s' run h _
    have hrun : run.Recorded w (Context.seedVars w payload options.overrides) :=
      hvars h ▸ .start h.nodes
    exact ⟨.register h.id hrun, .save h.id hrun⟩
  · exact fun r s' h => ⟨h.2.id, h.2.nodes, hvars h.2⟩

/-- Driving a run that was set off. -/
theorem holds_drive {run : Run} (token : Nat) {s : World} (hnodes : run.nodes = [])
    (hstart : w.isValid = true ∧ run.Fresh ∨ run.status.isTerminal = true)
    (hs : s.Shows run.id w run.context.vars) :
    (e.drive w run token).Holds (bystanders run.id) (·.Shows run.id w run.context.vars)
      (fun run' _ => run'.Recorded w run.context.vars) s := by
  rcases hstart with ⟨hw, hfresh⟩ | hterminal
  · rw [← e.fst_relate, map_eq_pure_bind]
    refine holds_bind.mpr ?_
    have hhands := (e.driver w token s.now).hands_bystanders run
    refine (e.holds_relate hw hfresh hs hhands).and_now.mono ?_
    rintro ⟨run', story⟩ s' ⟨hclosed, hs'⟩
    exact holds_done hs' hclosed.recorded
  · unfold drive
    rw [if_pos hterminal]
    exact holds_done hs (.start hnodes)

/-- How a run can be driven that was set off. -/
theorem always_prepare_start : (e.prepare w payload options).Always fun r =>
    w.isValid = true ∧ r.1.Fresh ∨ r.1.status.isTerminal = true := by
  cases hw : w.isValid with
  | true => exact (e.always_prepare_fresh hw payload options).mono fun r h => Or.inl ⟨rfl, h⟩
  | false =>
    refine (e.always_prepare_failed hw payload options).mono ?_
    rintro r ⟨-, hs | ⟨hs, -⟩⟩ <;> exact Or.inr (by rw [hs]; rfl)

/-- The whole of a run. -/
theorem holds_execute {s : World} (hnew : s.store.entry? s.nextRun = none) :
    (e.execute w payload options).Holds (bystanders s.nextRun)
      (·.Shows s.nextRun w (Context.seedVars w payload options.overrides))
      (fun run _ => run.Recorded w (Context.seedVars w payload options.overrides)) s := by
  refine holds_bind.mpr (((e.holds_prepare_shows w payload options hnew).and_always
    (e.always_prepare_start w payload options)).and_now.mono ?_)
  rintro ⟨run, token⟩ s₁ ⟨⟨⟨hid, hnodes, hvars⟩, hstart⟩, hs₁⟩
  rw [← hid, ← hvars] at hs₁ ⊢
  exact e.holds_drive w token hnodes hstart hs₁

end Engine

/-- **The variables of a run.** Of a run that is executed at once, and of one
that is set off and driven at any time later, the following holds at every
moment. The variables of the stored record are those of its seed with the
outputs of the completed nodes, in the order of their records, and the input
of each record shows the data of its node and the variables that the records
before it have left. The same holds of the record that comes out. -/
theorem variables_follow_records (e : Engine) (w : Workflow) (payload : Value)
    (options : RunOptions) {s : World} (hnew : s.store.entry? s.nextRun = none) :
    (∀ q t, Course (bystanders s.nextRun) (e.execute w payload options) s q t →
      t.Shows s.nextRun w (Context.seedVars w payload options.overrides) ∧
      ∀ run, q = done run → run.Recorded w (Context.seedVars w payload options.overrides)) ∧
    ∀ run token s₁, Course (bystanders s.nextRun) (e.prepare w payload options) s
        (done (run, token)) s₁ →
      ∀ s₂, s₁.Bystanding s.nextRun s₂ →
      ∀ q t, Course (bystanders s.nextRun) (e.drive w run token) s₂ q t →
        t.Shows s.nextRun w (Context.seedVars w payload options.overrides) ∧
        ∀ run', q = done run' → run'.Recorded w (Context.seedVars w payload options.overrides) := by
  constructor
  · intro q t hcourse
    have hholds := hcourse.holds (e.holds_execute w payload options hnew)
    refine ⟨hholds.now, ?_⟩
    rintro run rfl
    exact hholds.2
  · intro run token s₁ hprepare s₂ hbetween q t hcourse
    obtain ⟨hs₁, hid, hnodes, hvars⟩ :=
      hprepare.holds (e.holds_prepare_shows w payload options hnew)
    have hstart := hprepare.of_always (e.always_prepare_start w payload options)
    have hs₂ := hs₁.bystanding hbetween
    dsimp only at hid hnodes hvars hstart
    rw [← hid, ← hvars] at hs₂ ⊢
    rw [← hid] at hcourse
    have hholds := hcourse.holds (e.holds_drive w token hnodes hstart hs₂)
    refine ⟨hholds.now, ?_⟩
    rintro run' rfl
    exact hholds.2

/-- A run of two nodes, and the variables that they leave. -/
theorem pair_variables : ∃ run t,
    Course (bystanders "exec-1") (Engine.prompt.execute .pair .null {}) {} (done run) t ∧
      run.Recorded .pair [] ∧ t.Shows "exec-1" .pair [] ∧
      run.context.vars = [("node_a_output", .null), ("node_b_output", .null)] := by
  have hcourse := Course.turn (c := bystanders "exec-1")
    (p := Engine.prompt.execute .pair .null {}) (s := {}) 128 .free .start
  obtain ⟨hshows, hresult⟩ :=
    (variables_follow_records Engine.prompt .pair .null {} (s := {}) rfl).1 _ _ hcourse
  exact ⟨_, _, hcourse, hresult _ rfl, hshows, rfl⟩

end Automation
