/-
Automation.Proofs.Engine.ErasureTheorems — what is erased from records.

Two worlds in which the records of runs differ are alike if they are the same
once something is erased from all records (`Likeness.erased`). No signal and no
clock looks at records, so schedules in such worlds can stand alike
(`Likeness.erased_worldly`), and a run is set off alike in both of them
(`Engine.alike_prepare_erased`).

With a veil something is erased from the variables. If the executors of two
engines begin attempts that are the same behind the veil (`Executor.Veiled`),
then the records of the two runs are the same behind the veil
(`Schedule.execute_veiled`): one driver is the image of the other one
(`Mirror.veiled`), in a world in which the same is seen.
-/
import Automation.Proofs.Engine.MirrorTheorems
import Automation.Proofs.Engine.OrderTheorems
import Automation.Proofs.Engine.TandemTheorems

namespace Automation

open Process
open Automation.Json (Value)

/-- Worlds are alike that are the same when this is erased from all records. -/
def Likeness.erased (f : Run → Run) : Likeness World World where
  states s t := s.recast (fun _ => f) = t.recast (fun _ => f)
  steps _ _ s' t' := s'.recast (fun _ => f) = t'.recast (fun _ => f)
  waits := Eq

/-- They stay so. -/
theorem Likeness.erased_worldly (f : Run → Run) :
    (erased f).Worldly fun _ r r' => f r = f r' where
  waits h := h
  steps _ h := h
  signals h := World.signals_of_recast h
  clock now h := (congrArg (fun w : World => { w with now }) h :)
  endRun := by
    intro s t id r r' h hr
    have hend : ∀ (w : World) r, (w.recast fun _ => f).endRun id (f r) =
        (w.endRun id r).recast fun _ => f := fun _ _ => World.endRun_recast
    dsimp only [erased] at h ⊢
    rw [← hend, ← hend, h, hr]

section

variable {f : Run → Run} (hf : Run.Recasts fun _ => f) {e e' : Engine} {w w' : Workflow}
  {payload : Value} {options : RunOptions}

include hf

/-- **A run is set off alike** for two workflows that are as valid and that begin with
the same record, if what is erased are the issues that they may have. -/
theorem Engine.alike_prepare_erased
    (hfirst : ∀ now id, e.first w payload options now id = e'.first w' payload options now id)
    (hvalid : w.isValid = w'.isValid)
    (hfail : ∀ (r : Run) now, f (r.fail ("Workflow validation failed: " ++ w.summary) now) =
      f (r.fail ("Workflow validation failed: " ++ w'.summary) now)) :
    (e.prepare w payload options).Alike (.erased f) (fun a b => f a.1 = f b.1 ∧ a.2 = b.2)
      (e'.prepare w' payload options) := by
  have hlook : ∀ s t, (Likeness.erased f).states s t → (Likeness.erased f).steps s t s t :=
    fun _ _ h => h
  have hcheck : ∀ (run : Run) (now token : Nat), (w.check run now token).Alike (.erased f)
      (fun a b => f a.1 = f b.1 ∧ a.2 = b.2) (w'.check run now token) := by
    intro run now token
    have hsave : (Driver.save (run.fail ("Workflow validation failed: " ++ w.summary) now)).Alike
        (.erased f) (fun r r' => f r = f r')
        (Driver.save (run.fail ("Workflow validation failed: " ++ w'.summary) now)) :=
      alike_stepLocked fun _ _ hs => World.saveRun_of_recast hf hs (hfail run now)
    unfold Workflow.check
    rw [hvalid]
    exact alike_ite Iff.rfl ⟨rfl, rfl⟩ (hsave.bind fun r r' hr => alike_done ⟨hr, rfl⟩)
  rw [← bind_done (e.prepare w payload options), ← bind_done (e'.prepare w' payload options),
    e.prepare_bind, e'.prepare_bind]
  refine alike_read_bind hlook fun s t hs => ?_
  have hnow : s.now = t.now := World.now_of_recast hs
  rw [hnow]
  refine alike_read_bind hlook fun s t hs => ?_
  have hnext : s.nextRun = t.nextRun := (congrArg World.nextRun hs :)
  rw [hnext]
  intro s t hs
  rw [hfirst]
  generalize e'.first w' payload options _ _ = run
  obtain ⟨hafter, htoken⟩ := World.addRun_of_recast hf hs (Eq.refl (f run))
  refine ⟨hafter, ?_⟩
  dsimp only
  rw [htoken, bind_done, bind_done]
  exact hcheck run _ _

end

/-! ## Engines behind a veil -/

/-- One driver beside the other, in worlds of which the same is seen. -/
def Mirror.veiled (v : Veil) (e e' : Engine) (w : Workflow) (token : Nat) : Mirror where
  toLikeness := .erased v.run
  view := {}
  veil := v
  workflow := w
  logging := w.settings.logging
  executors := e.executors
  executors' := e'.executors
  token
  token' := token
  owns _ := True

section

variable {v : Veil} {e e' : Engine} {w : Workflow}

theorem Mirror.runs_veiled {token : Nat} {r r' : Run} :
    (Mirror.veiled v e e' w token).runs r r' ↔ v.run r = v.run r' := by
  rw [runs, veiled, View.run_self, and_true]

variable (he : ∀ node ∈ w.nodes,
  Option.Rel (Executor.Veiled v node) (e.executors node.type) (e'.executors node.type))

include he

theorem Mirror.veiled_sound (token : Nat) : (Mirror.veiled v e e' w token).Sound where
  now hs := World.now_of_recast hs
  isFired hs := World.isFired_of_recast hs token
  look hs := hs
  save hs hr := by
    obtain ⟨hworld, hrun⟩ := World.saveRun_of_recast v.run_recasts hs (Mirror.runs_veiled.mp hr)
    exact ⟨hworld, Mirror.runs_veiled.mpr hrun⟩
  calls := by
    intro node hnode
    have hexecutors := he node hnode
    dsimp only [Mirror.veiled]
    generalize e.executors node.type = executor?, e'.executors node.type = executor?' at hexecutors
    cases hexecutors with
    | none => exact .none
    | @some executor executor' hexecutor => ?_
    refine .some fun s t r r' hs hr => ?_
    have hrun : v.run r = v.run r' := Mirror.runs_veiled.mp hr
    have hid : r.id = r'.id := (congrArg Run.id hrun :)
    have hworkflow : r.workflowId = r'.workflowId := (congrArg Run.workflowId hrun :)
    have haround : executor' node ⟨r'.context, r'.id, r'.workflowId, t.now⟩ t.services =
        executor' node ⟨r'.context, r.id, r.workflowId, s.now⟩ s.services := by
      rw [hid, hworkflow, World.now_of_recast hs, World.services_of_recast hs]
    obtain ⟨hattempt, hservices⟩ := hexecutor ⟨r.context, r.id, r.workflowId, s.now⟩ r'.context
      s.services (congrArg Run.context hrun :)
    dsimp only
    rw [haround, ← hservices]
    refine ⟨hattempt, fun _ deadline => ?_, World.recast_withServices hs _⟩
    simp [Likeness.erased]
  waits_nothing deadline := by simp [Mirror.veiled, Likeness.erased]
  waits_instant deadline instant := by simp [Mirror.veiled, Likeness.erased]
  logs := ⟨fun level => by simp [Mirror.veiled], rfl⟩
  owns _ _ := trivial

/-- **Two engines run a workflow alike behind the veil.** -/
theorem Engine.alike_execute_veiled (hconfig : e.config = e'.config) (payload : Value)
    (options : RunOptions) : (e.execute w payload options).Alike (.erased v.run)
      (fun r r' => v.run r = v.run r') (e'.execute w payload options) := by
  have hfirst : ∀ now id, e.first w payload options now id = e'.first w payload options now id := by
    intro now id
    rw [Engine.first, hconfig]
    rfl
  refine (Engine.alike_prepare_erased v.run_recasts hfirst rfl fun _ _ => rfl).bind ?_
  rintro ⟨r, token⟩ ⟨r', _⟩ ⟨hr, rfl⟩
  have hsound : (Mirror.veiled v e e' w token).Sound := Mirror.veiled_sound he token
  have hdrive := hsound.alike_drive (Eq.refl e.executors) (Eq.refl e'.executors)
    (Mirror.runs_veiled.mpr hr)
  exact hdrive.mono fun _ _ => Mirror.runs_veiled.mp

/-- Executed in the same world, before anything else was asked, the two runs have
records that are the same behind the veil. -/
theorem Schedule.execute_veiled (hconfig : e.config = e'.config) (payload : Value)
    (options : RunOptions) (world : World) : Option.Rel (fun r r' => v.run r = v.run r')
      (execute { world } e w payload options).1 (execute { world } e' w payload options).1 := by
  have hsame : Schedule.Alike (.erased v.run) (fun _ r r' => v.run r = v.run r')
      { world } { world } := ⟨rfl, rfl, rfl, .nil, .nil, .nil, .nil⟩
  exact (Schedule.Alike.serve (Likeness.erased_worldly v.run) (fun _ h => h) hsame _
    (Engine.alike_execute_veiled he hconfig payload options)).1

end

end Automation
