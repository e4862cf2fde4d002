/-
Automation.Proofs.Engine.CrewTheorems — the jobs of a schedule and the state
that they share.

`Crew notes w jobs`: the shared state `w` is fine in the light of the notes,
the jobs are the drivers of exactly the runs in the background that have not
ended, and each keeps to the pact of a driver. Whatever happens next leaves
a crew again: a job takes a turn (`Crew.turn`), the clock moves
(`Crew.setNow`), a request changes the state (`Crew.tends`) or a run is put
into the background (`Crew.leaveRun`). Who stands where in the schedule does
not matter here, so the jobs are a multiset.
-/
import Automation.Engine.Schedule
import Automation.Proofs.Engine.RequestTheorems
import Mathlib.Data.Multiset.MapFold

namespace Automation

open Process

/-- A job in the light of a note: the driver of a run with this token. -/
structure Job.Drives (job : Job) (k : Nat) (w : World) (g : Option Cancellation) : Prop where
  known : Known job.id k w g
  within : job.process.Within (Wait.CutBy k) job.stops
  rests : job.process.Rests (cancellable job.id k) (Final job.id k) w g

/-- The shared state and the drivers of the runs in the background. -/
structure Crew (notes : String → Option Cancellation) (w : World) (jobs : Multiset Job) :
    Prop where
  fine : w.Fine notes
  distinct : (jobs.map Job.id).Nodup
  driven : ∀ id, w.isDriven id = true ↔ id ∈ jobs.map Job.id
  drives : ∀ job ∈ jobs, ∃ k, job.Drives k w (notes job.id)

open Classical in
/-- Where the job of a run is; without one nobody has begun. -/
noncomputable def placeOf (jobs : Multiset Job) (id : String) : Place :=
  if h : ∃ job ∈ jobs, job.id = id then h.choose.process.place else .start

variable {notes : String → Option Cancellation} {w w' : World} {job : Job} {jobs : Multiset Job}

theorem Job.Drives.meanwhile {k : Nat} {g g' : Option Cancellation} (h : job.Drives k w g)
    (ho : Meanwhile job.id k job.process.place w g w' g') : job.Drives k w' g' :=
  ⟨h.known.meanwhile ho, h.within, h.rests.company ho⟩

/-- Others than the driver of `i` do not see what it does. -/
theorem Job.Drives.minds {i : String} {k : Nat} {g : Option Cancellation} (h : job.Drives k w g)
    (hm : w.Minds i w') (hne : job.id ≠ i) : job.Drives k w' g :=
  h.meanwhile (.quiet (Nat.le_of_eq hm.now.symm) (hm.entries _ hne) (hm.isFired k))

namespace Crew

theorem isDriven (h : Crew notes w jobs) (hj : job ∈ jobs) : w.isDriven job.id = true :=
  (h.driven job.id).mpr (Multiset.mem_map_of_mem Job.id hj)

theorem ne_of_mem {job' : Job} (h : Crew notes w (job ::ₘ jobs)) (hj : job' ∈ jobs) :
    job'.id ≠ job.id := by
  have hd := h.distinct
  rw [Multiset.map_cons, Multiset.nodup_cons] at hd
  intro hid
  rw [← hid] at hd
  exact hd.1 (Multiset.mem_map_of_mem Job.id hj)

theorem placeOf_eq (h : Crew notes w jobs) (hj : job ∈ jobs) :
    placeOf jobs job.id = job.process.place := by
  have hex : ∃ job' ∈ jobs, job'.id = job.id := ⟨job, hj, rfl⟩
  obtain ⟨hmem, hid⟩ := hex.choose_spec
  rw [placeOf, dif_pos hex, Multiset.inj_on_of_nodup_map h.distinct _ hmem job hj hid]

/-- The clock moves. -/
theorem setNow (h : Crew notes w jobs) (now : Nat) :
    Crew notes { w with now := max w.now now } jobs where
  fine := h.fine.setNow _
  distinct := h.distinct
  driven := h.driven
  drives job hj := by
    obtain ⟨k, hk⟩ := h.drives job hj
    exact ⟨k, hk.meanwhile (.quiet (Nat.le_max_left _ _) rfl rfl)⟩

/-- A run is put into the background. -/
theorem leaveRun {k : Nat} (h : Crew notes w jobs) (hlookup : w.background.lookup job.id = none)
    (hd : job.Drives k w (notes job.id)) : Crew notes (w.leaveRun job.id) (job ::ₘ jobs) := by
  obtain ⟨r, hr, -⟩ := hd.known.entry
  have hout : job.id ∉ jobs.map Job.id := by
    simp [← h.driven, World.isDriven_of_none hlookup]
  have hstays : ∀ {job' : Job} {k' : Nat}, job'.Drives k' w (notes job'.id) →
      job'.Drives k' (w.leaveRun job.id) (notes job'.id) :=
    fun hd => hd.meanwhile (.quiet (Nat.le_refl _) rfl rfl)
  refine ⟨h.fine.leaveRun hr hlookup, ?_, ?_, ?_⟩
  · rw [Multiset.map_cons, Multiset.nodup_cons]
    exact ⟨hout, h.distinct⟩
  · intro id
    rw [Multiset.map_cons, Multiset.mem_cons]
    by_cases hid : id = job.id
    · subst hid
      simp [World.isDriven_iff.mpr (World.lookup_leaveRun hlookup)]
    · rw [World.isDriven_congr (World.lookup_leaveRun_ne hid), h.driven]
      simp [hid]
  · intro job' hj
    rcases Multiset.mem_cons.mp hj with rfl | hj
    · exact ⟨k, hstays hd⟩
    · obtain ⟨k', hk'⟩ := h.drives job' hj
      exact ⟨k', hstays hk'⟩

/-- What a request does to a crew. -/
theorem tends {notes' : String → Option Cancellation} (h : Crew notes w jobs)
    (hf : w'.Fine notes') (hdriven : ∀ id, w'.isDriven id = w.isDriven id)
    (ho : ∀ job ∈ jobs, ∀ k, Known job.id k w (notes job.id) →
      Meanwhile job.id k job.process.place w (notes job.id) w' (notes' job.id)) :
    Crew notes' w' jobs where
  fine := hf
  distinct := h.distinct
  driven id := by rw [hdriven, h.driven]
  drives job hj := by
    obtain ⟨k, hk⟩ := h.drives job hj
    exact ⟨k, hk.meanwhile (ho job hj k hk.known)⟩

/-- The crew after a run was cancelled, with a note of it. -/
theorem cancelRun {id : String} {e : StoredRun} (h : Crew notes w jobs)
    (he : w.store.entry? id = some e) (hlive : e.run.status.isTerminal = false) :
    Crew (Function.update notes id (some (w.cancellation id e.run (placeOf jobs id))))
      (w.cancelRun id).2 jobs := by
  have hnote := h.fine.note_of_live he hlive
  refine h.tends (h.fine.cancelRun he hlive _) (fun _ => rfl) ?_
  intro job hj k hk
  obtain ⟨r, hr, -⟩ := hk.entry
  by_cases hid : job.id = id
  · subst hid
    cases he.symm.trans hr
    rw [Function.update_self, hnote, h.placeOf_eq hj]
    exact World.meanwhile_cancelRun he hlive _
  · rw [Function.update_of_ne hid]
    exact World.meanwhile_cancelRun_ne h.fine he hr hid _

section

variable {left left' : Nat} {access : Access} {outcome : Outcome World Run}

/-- A job takes a turn: it touches nothing but its own entry and services,
and no services once its run is cancelled. -/
theorem turn (h : Crew notes w (job ::ₘ jobs))
    (ht : job.process.turn World.signals left access w = ⟨outcome, left', w'⟩) :
    w.Minds job.id w' ∧ ((notes job.id).isSome = true → w'.services = w.services) := by
  obtain ⟨k, hk⟩ := h.drives job (Multiset.mem_cons_self job jobs)
  have hkeeps := hk.rests.keeps.turn left access
  rw [show (cancellable job.id k).signals = World.signals from rfl, ht] at hkeeps
  exact (hkeeps.1 hk.known).2

/-- After a turn: the job and the others, as they see the state then. -/
theorem drives_turn (h : Crew notes w (job ::ₘ jobs))
    (ht : job.process.turn World.signals left access w = ⟨outcome, left', w'⟩) :
    w'.Fine notes ∧ (∀ job' ∈ jobs, ∃ k, job'.Drives k w' (notes job'.id)) ∧
    ∃ k, Known job.id k w' (notes job.id) ∧ outcome.rest.Within (Wait.CutBy k) job.stops ∧
      Outcome.Keeps (cancellable job.id k) (Final job.id k) outcome w' (notes job.id) := by
  obtain ⟨k, hk⟩ := h.drives job (Multiset.mem_cons_self job jobs)
  have hkeeps := hk.rests.keeps.turn left access
  have hwithin := hk.within.turn World.signals left access w
  rw [show (cancellable job.id k).signals = World.signals from rfl, ht] at hkeeps
  rw [ht] at hwithin
  obtain ⟨hk', hm, -⟩ := hkeeps.1 hk.known
  refine ⟨?_, ?_, k, hk', hwithin, hkeeps.2⟩
  · exact h.fine.minds hm hk.known hk' (Or.inl (h.isDriven (Multiset.mem_cons_self job jobs)))
  · intro job' hj
    obtain ⟨k', hdrives⟩ := h.drives job' (Multiset.mem_cons_of_mem hj)
    exact ⟨k', hdrives.minds hm (h.ne_of_mem hj)⟩

theorem isDriven_turn (h : Crew notes w (job ::ₘ jobs))
    (ht : job.process.turn World.signals left access w = ⟨outcome, left', w'⟩) (id : String) :
    w'.isDriven id = w.isDriven id :=
  World.isDriven_congr (by rw [(h.turn ht).1.background])

theorem turn_goes (h : Crew notes w (job ::ₘ jobs))
    (ht : job.process.turn World.signals left access w = ⟨outcome, left', w'⟩)
    (hgoes : ∀ run, outcome ≠ .ended run) :
    Crew notes w' ({ job with process := outcome.rest, locks := false } ::ₘ jobs) := by
  obtain ⟨hf, hothers, k, hk, hwithin, hkeeps⟩ := h.drives_turn ht
  refine ⟨hf, ?_, ?_, ?_⟩
  · have hd := h.distinct
    rwa [Multiset.map_cons] at hd ⊢
  · intro id
    rw [h.isDriven_turn ht, h.driven, Multiset.map_cons, Multiset.map_cons]
  · intro job' hj
    rcases Multiset.mem_cons.mp hj with rfl | hj
    · exact ⟨k, hk, hwithin, hkeeps.rests hgoes⟩
    · exact hothers job' hj

theorem turn_ended {run : Run} (h : Crew notes w (job ::ₘ jobs))
    (ht : job.process.turn World.signals left access w = ⟨.ended run, left', w'⟩) :
    Crew notes (w'.endRun job.id run) jobs := by
  obtain ⟨hf, hothers, k, -, -, hfinal⟩ := h.drives_turn ht
  have hd : w'.isDriven job.id = true :=
    (h.isDriven_turn ht _).trans (h.isDriven (Multiset.mem_cons_self job jobs))
  have hdistinct := h.distinct
  rw [Multiset.map_cons, Multiset.nodup_cons] at hdistinct
  refine ⟨hf.endRun hfinal hd, hdistinct.2, ?_, ?_⟩
  · intro id
    by_cases hid : id = job.id
    · subst hid
      refine ⟨?_, fun h => absurd h hdistinct.1⟩
      intro h
      rw [World.isDriven_iff, World.lookup_endRun, World.isDriven_iff.mp hd] at h
      cases h
    · rw [World.isDriven_congr (World.lookup_endRun_ne hid), h.isDriven_turn ht, h.driven,
        Multiset.map_cons, Multiset.mem_cons]
      simp [hid]
  · intro job' hj
    obtain ⟨k', hk'⟩ := hothers job' hj
    exact ⟨k', hk'.meanwhile (.quiet (Nat.le_refl _) rfl rfl)⟩

end

end Crew

end Automation
