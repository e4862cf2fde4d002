/-
Automation.Proofs.Engine.CommandTheorems — commands one after the other.

Runs are set off, executed, cancelled, looked at and waited for by commands,
and in between the clock is advanced. `Schedule.Sound` holds before and
after every command (`Sound.perform`): there is a crew, and nobody is
served. `Schedule.Leads` is finer: it passes through all the moments while
commands are carried out, in between the turns of jobs and requests, so
what is shown along `Leads` holds at each of them.
-/
import Automation.Proofs.Engine.AttendTheorems

namespace Automation

open Process
open Automation.Json (Value)

/-! ## What requests do -/

/-- What a request does, as far as it concerns a run in the background that it
does not know: no time passes, and no result turns up that was not there. -/
structure World.Steps (w w' : World) : Prop extends w.Bides w' where
  known : ∀ id, (w.store.entry? id).isSome = true → (w'.store.entry? id).isSome = true
  fates : ∀ id run, w'.background.lookup id = some (some run) →
    w.background.lookup id = some (some run)

namespace World.Steps

variable {w w₁ w₂ : World}

theorem rfl : w.Steps w :=
  ⟨.rfl, fun _ h => h, fun _ _ h => h⟩

theorem trans (h : w.Steps w₁) (h' : w₁.Steps w₂) : w.Steps w₂ where
  toBides := h.toBides.trans h'.toBides
  known id hid := h'.known id (h.known id hid)
  fates id run hrun := h.fates id run (h'.fates id run hrun)

theorem addRun (w : World) (run : Run) : w.Steps (w.addRun run).2 where
  now := Eq.refl _
  tokens _ h := h
  known id hid := by
    by_cases heq : run.id = id
    · subst heq
      exact Option.isSome_iff_exists.mpr ⟨_, Store.entry?_register w.store run⟩
    · exact (congrArg Option.isSome (Store.entry?_register_ne heq)).trans hid
  fates _ _ h := h

theorem saveRun (w : World) (run : Run) : w.Steps (w.saveRun run).2 where
  now := Eq.refl _
  tokens := .saveRun w run
  known id hid := by
    by_cases heq : run.id = id
    · subst heq
      obtain ⟨e, he⟩ := Option.isSome_iff_exists.mp hid
      exact Option.isSome_iff_exists.mpr ⟨_, Store.entry?_save he⟩
    · exact (congrArg Option.isSome (Store.entry?_save_ne heq)).trans hid
  fates _ _ h := h

theorem cancelRun (w : World) (i : String) : w.Steps (w.cancelRun i).2 where
  now := Eq.refl _
  tokens := (Tends.cancelRun w i).fired
  known id hid := by
    by_cases heq : i = id
    · subst heq
      cases hcancel : (w.cancelRun i).1 with
      | false => rwa [cancelRun_of_false hcancel]
      | true =>
        obtain ⟨run, hrun, hlive⟩ := Store.cancel_fst.mp hcancel
        obtain ⟨e, he, rfl⟩ := Store.exists_entry? hrun
        exact Option.isSome_iff_exists.mpr ⟨_, Store.entry?_cancel he hlive w.now⟩
    · exact (congrArg Option.isSome (Store.entry?_cancel_ne heq w.now)).trans hid
  fates _ _ h := h

theorem fetchRun (w : World) (i : String) : w.Steps (w.fetchRun i).2 where
  now := Eq.refl _
  tokens _ h := h
  known _ h := h
  fates id run h := by
    by_cases heq : id = i
    · subst heq
      cases World.lookup_fetchRun.symm.trans h
    · rwa [World.lookup_fetchRun_ne heq] at h

end World.Steps

/-- Each change that a request makes is such a step. -/
theorem Asked.does {α : Type} {p : Process World α} {n : Nat} (h : Asked p n) :
    p.Does World.Steps := by
  have hprepare : ∀ (e : Engine) (w : Workflow) (payload : Value) (options : RunOptions),
      (e.prepare w payload options).Does World.Steps :=
    Engine.does_prepare (fun _ => .rfl) .addRun .saveRun
  cases h with
  | execute e w payload options =>
    refine (hprepare e w payload options).then ?_
    rintro ⟨run, token⟩
    refine Engine.does_drive (fun _ => .rfl) (fun s r _ => .saveRun s r) ?_ e w token
    exact fun s services => ⟨⟨rfl, fun _ h => h⟩, fun _ h => h, fun _ _ h => h⟩
  | prepare e w payload options => exact hprepare e w payload options
  | pass instant => exact fun _ => trivial
  | join id => exact fun _ s => ⟨.fetchRun s id, trivial⟩
  | inspect look => exact fun _ => ⟨.rfl, trivial⟩
  | cancel id => exact fun s => ⟨.cancelRun s id, trivial⟩

/-! ## Commands in turn -/

/-- What an engine is told to do. -/
inductive Command where
  | spawn (e : Engine) (w : Workflow) (payload : Value) (options : RunOptions)
  | execute (e : Engine) (w : Workflow) (payload : Value) (options : RunOptions)
  | advance (ms : Nat)
  | cancel (id : String)
  | get (id : String)
  | join (id : String)

namespace Schedule

/-- What a command leaves. -/
def perform (s : Schedule) : Command → Schedule
  | .spawn e w payload options => (s.spawn e w payload options).2
  | .execute e w payload options => (s.execute e w payload options).2
  | .advance ms => s.advance ms
  | .cancel id => (s.cancel id).2
  | .get id => (s.inspect (·.get? id)).2
  | .join id => (s.join id).2

/-- What commands leave that are carried out in turn. -/
def performAll (s : Schedule) (commands : List Command) : Schedule :=
  commands.foldl perform s

/-- What can come to be after a moment, while requests are served and runs
are put into the background. -/
inductive Leads (s : Schedule) : Schedule → Prop where
  | start : Leads s s
  | serves {α : Type} {p q : Process World α} {n : Nat} {t t' : Schedule} :
      Leads s t → Asked p n → Serves t p q t' → Leads s t'
  | answers {α : Type} {p : Process World α} {n : Nat} {a : α} {t t' : Schedule} :
      Leads s t → Asked p n → Answers t p a t' → Leads s t'
  | spawned {e : Engine} {w : Workflow} {payload : Value} {options : RunOptions} {run : Run}
      {token : Nat} {t t' : Schedule} :
      Leads s t → Answers t (e.prepare w payload options) (run, token) t' →
      Leads s (t'.background e w run token)

/-- Before and after a command. -/
structure Sound (s : Schedule) : Prop where
  crew : ∃ notes, Crew notes s.world s.jobs
  tame : ∀ job ∈ s.jobs, job.Tame
  idle : s.Idle

section

variable {s t : Schedule} {notes : String → Option Cancellation}

theorem Leads.trans {u : Schedule} (h : s.Leads t) (h' : t.Leads u) : s.Leads u := by
  induction h' with
  | start => exact h
  | serves _ hp hserves ih => exact ih.serves hp hserves
  | answers _ hp hanswers ih => exact ih.answers hp hanswers
  | spawned _ hanswers ih => exact ih.spawned hanswers

/-! ## Putting a run into the background -/

theorem rests_prepare (e : Engine) (w : Workflow) (payload : Value) (options : RunOptions)
    {world : World} (hfree : world.Free) :
    (e.prepare w payload options).Rests requests (fun (run, token) s _ =>
      Apart run.id token s ∧ Ready run.id token run s none) world () :=
  fun _ _ ho => e.keeps_prepare w payload options (hfree.around ho)

/-- A driver that has not begun is neither at a lock nor at a wait. -/
theorem place_drive (e : Engine) (w : Workflow) (run : Run) (token : Nat) :
    (e.drive w run token).place = .start := by
  unfold Engine.drive
  split <;> rfl

theorem crew_background {run : Run} {token : Nat} (e : Engine) (w : Workflow)
    (hcrew : Crew notes s.world s.jobs) (ha : Apart run.id token s.world)
    (hready : Ready run.id token run s.world none) :
    Crew notes (s.background e w run token).world (s.background e w run token).jobs := by
  have hdrives : Job.Drives ⟨run.id, e.drive w run token, Engine.stops w, false⟩ token s.world
      (notes run.id) := by
    rw [hcrew.fine.note_of_known ha.known]
    refine ⟨ha.known, e.within_drive_stops w run token, ?_⟩
    intro w' g' ho
    refine e.keeps_drive w (hready.meanwhile ho ?_)
    rw [place_drive]
    simp
  rw [jobs_background]
  exact hcrew.leaveRun ha.lookup hdrives

/-- What can come to be: there is a crew at every moment, and a run with a
note does not come into the background again. -/
theorem Leads.crew (h : s.Leads t) (hcrew : Crew notes s.world s.jobs) :
    ∃ notes', Extends notes notes' ∧ Crew notes' t.world t.jobs ∧
      ∀ id, (notes id).isSome = true → t.world.isBehind id = true →
        s.world.isBehind id = true := by
  induction h with
  | start => exact ⟨notes, fun _ _ => id, hcrew, fun _ _ => id⟩
  | serves _ hp hserves ih =>
    obtain ⟨notes₁, hext₁, hcrew₁, hbehind₁⟩ := ih
    obtain ⟨notes₂, hext₂, hcrew₂, hbehind₂, -⟩ := hserves.crew hcrew₁ (hp.rests hcrew₁.fine.free)
    exact ⟨notes₂, hext₁.trans hext₂, hcrew₂, fun id hn hid => hbehind₁ id hn (hbehind₂ id hid)⟩
  | answers _ hp hanswers ih =>
    obtain ⟨notes₁, hext₁, hcrew₁, hbehind₁⟩ := ih
    obtain ⟨notes₂, hext₂, hcrew₂, hbehind₂, -⟩ :=
      hanswers.crew hcrew₁ (hp.rests hcrew₁.fine.free)
    exact ⟨notes₂, hext₁.trans hext₂, hcrew₂, fun id hn hid => hbehind₁ id hn (hbehind₂ id hid)⟩
  | @spawned e w payload options run token t t' _ hanswers ih =>
    obtain ⟨notes₁, hext₁, hcrew₁, hbehind₁⟩ := ih
    obtain ⟨notes₂, hext₂, hcrew₂, hbehind₂, ha, hready⟩ :=
      hanswers.crew hcrew₁ (rests_prepare e w payload options hcrew₁.fine.free)
    refine ⟨notes₂, hext₁.trans hext₂, crew_background e w hcrew₂ ha hready, ?_⟩
    intro id hn hid
    refine hbehind₁ id hn (hbehind₂ id ?_)
    have hne : id ≠ run.id := by
      rintro rfl
      obtain ⟨c, hc⟩ := Option.isSome_iff_exists.mp hn
      cases (hcrew₂.fine.note_of_known ha.known).symm.trans (hext₂ _ c (hext₁ _ c hc))
    rw [World.isBehind_eq] at hid ⊢
    rwa [show (t'.background e w run token).world = t'.world.leaveRun run.id from rfl,
      World.lookup_leaveRun_ne hne] at hid

/-! ## Commands -/

/-- Before anything was told. -/
theorem Sound.of_empty {w : World} (hstore : w.store = {}) (hbackground : w.background = []) :
    Sound { world := w } := by
  have hlookup : ∀ id, w.background.lookup id = none := by
    rw [hbackground]
    exact fun _ => rfl
  have hdriven : ∀ id, ¬w.isDriven id = true := fun id h =>
    absurd ((hlookup id).symm.trans (World.isDriven_iff.mp h)) (by simp)
  have hfine : w.Fine fun _ => none := by
    have hentries : ∀ id e, w.store.entry? id ≠ some e := by
      rw [hstore]
      exact fun _ _ he => by cases he
    constructor
    case named => exact fun id e he => absurd he (hentries id e)
    case tokens => exact fun id e he => absurd he (hentries id e)
    case fired =>
      intro k hk
      rw [hstore] at hk
      cases hk
    case apart => exact fun id _ e _ he => absurd he (hentries id e)
    case behind =>
      intro id h
      rw [World.isBehind_eq, hlookup] at h
      cases h
    case ended =>
      intro id run h
      simp [hlookup id] at h
    case known => exact fun id e he => absurd he (hentries id e)
    case noted =>
      intro id c hc
      cases hc
  have hjobs : ({ world := w } : Schedule).jobs = 0 := rfl
  refine ⟨⟨fun _ => none, hfine, by simp [hjobs], ?_, by simp [hjobs]⟩, by simp [hjobs], ?_, rfl⟩
  · intro id
    exact ⟨fun h => absurd h (hdriven id), by simp [hjobs]⟩
  · exact ⟨⟨by simp, by simp, by simp⟩, by simp, fun h => absurd rfl h, rfl, rfl⟩

theorem Idle.background (h : s.Idle) (hs : ∀ job ∈ s.jobs, job.Tame) (e : Engine) (w : Workflow)
    (run : Run) (token : Nat) : (s.background e w run token).Idle := by
  refine ⟨⟨⟨?_, h.going.poised.waiting, h.going.poised.lines⟩, ?_, ?_,
    h.going.claims⟩, h.tired⟩
  · intro job hj hlocks
    simp only [Schedule.background, List.append_assoc, List.mem_append, List.mem_singleton] at hj
    rcases hj with hj | rfl | hj
    · exact h.going.poised.locks job (List.mem_append_left _ hj) hlocks
    · cases hlocks
    · exact h.going.poised.locks job (List.mem_append_right _ hj) hlocks
  · intro job hj
    have htame : job.Tame := tame_of_mem hs (List.mem_append_right _ hj)
    have hsame : isOver (s.world.leaveRun run.id) job.process = isOver s.world job.process :=
      isOver_congr rfl rfl htame.unattached
    exact hsame.trans (h.going.asleep job hj)
  · refine fun hline => (h.going.held hline).mono rfl ?_
    rw [Schedule.background, List.append_assoc]
    exact List.append_subset.mpr ⟨List.subset_append_left _ _,
      List.Subset.trans (List.subset_append_right _ _) (List.subset_append_right _ _)⟩

theorem Sound.asks (h : s.Sound) {α : Type} {p : Process World α} {n : Nat} (hp : Asked p n) :
    s.Asks p :=
  ⟨h.tame, hp.does.mono fun _ _ hsteps => hsteps.toBides, n, hp.within⟩

theorem Sound.crew_serves (h : s.Sound) {α : Type} {p q : Process World α} {n : Nat}
    (hp : Asked p n) (hserves : Serves s p q t) : ∃ notes, Crew notes t.world t.jobs := by
  obtain ⟨notes, hcrew⟩ := h.crew
  obtain ⟨notes', -, hcrew', -⟩ := hserves.crew hcrew (hp.rests hcrew.fine.free)
  exact ⟨notes', hcrew'⟩

/-- Serving a request leaves everything as it is before a command. -/
theorem Sound.serve (h : s.Sound) {α : Type} {p : Process World α} {n : Nat} (hp : Asked p n) :
    Comes s p (s.serve n p) ∧ (s.serve n p).2.Sound ∧ s.Leads (s.serve n p).2 := by
  have hcomes := serve_spec (h.asks hp) h.idle hp.within
  have htame := each_serve tame_turn n p h.tame
  refine ⟨hcomes, ?_⟩
  generalize s.serve n p = result at hcomes htame
  obtain ⟨_ | a, t⟩ := result
  · obtain ⟨q, hserves, hidle, -⟩ := hcomes
    exact ⟨⟨h.crew_serves hp hserves, htame, hidle⟩, Leads.start.serves hp hserves⟩
  · obtain ⟨hanswers, hidle⟩ := hcomes
    have hlead := Leads.start.answers hp hanswers
    obtain ⟨notes, hcrew⟩ := h.crew
    obtain ⟨notes', -, hcrew', -⟩ := hlead.crew hcrew
    exact ⟨⟨⟨notes', hcrew'⟩, htame, hidle⟩, hlead⟩

theorem Sound.spawn (h : s.Sound) (e : Engine) (w : Workflow) (payload : Value)
    (options : RunOptions) :
    (s.spawn e w payload options).2.Sound ∧ s.Leads (s.spawn e w payload options).2 := by
  obtain ⟨hcomes, hsound, hlead⟩ := h.serve (.prepare e w payload options)
  unfold Schedule.spawn
  generalize s.serve 2 (e.prepare w payload options) = result at *
  obtain ⟨_ | ⟨run, token⟩, t⟩ := result
  · exact ⟨hsound, hlead⟩
  · obtain ⟨notes, hcrew⟩ := h.crew
    have hlead' := Leads.start.spawned hcomes.1
    obtain ⟨notes', -, hcrew', -⟩ := hlead'.crew hcrew
    exact ⟨⟨⟨notes', hcrew'⟩, tame_background hsound.tame e w run token,
      hsound.idle.background hsound.tame e w run token⟩, hlead'⟩

theorem Sound.join (h : s.Sound) (id : String) : (s.join id).2.Sound ∧ s.Leads (s.join id).2 := by
  have hserve := (h.serve (.join id)).2
  unfold Schedule.join
  split
  · generalize s.serve 1 _ = result at *
    obtain ⟨_ | run, t⟩ := result
    · exact hserve
    · exact hserve
  · exact ⟨h, .start⟩

/-- **Every command leads from sound to sound.** -/
theorem Sound.perform (h : s.Sound) (command : Command) :
    (s.perform command).Sound ∧ s.Leads (s.perform command) := by
  cases command with
  | spawn e w payload options => exact h.spawn e w payload options
  | execute e w payload options => exact (h.serve (.execute e w payload options)).2
  | advance ms => exact (h.serve (.pass _)).2
  | cancel id => exact (h.serve (.cancel id)).2
  | get id => exact (h.serve (.inspect fun store => store.get? id)).2
  | join id => exact h.join id

theorem Sound.performAll (commands : List Command) : ∀ {s : Schedule}, s.Sound →
    (s.performAll commands).Sound ∧ s.Leads (s.performAll commands) := by
  induction commands with
  | nil => exact fun h => ⟨h, .start⟩
  | cons command commands ih =>
    intro s h
    obtain ⟨h₁, hlead₁⟩ := h.perform command
    obtain ⟨h₂, hlead₂⟩ := ih h₁
    exact ⟨h₂, hlead₁.trans hlead₂⟩

end

end Schedule

end Automation
