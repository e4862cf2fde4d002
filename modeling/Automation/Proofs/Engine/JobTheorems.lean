/-
Automation.Proofs.Engine.JobTheorems — what jobs do, whatever becomes of
their runs.

The driver of a run hands in records of this run and calls collaborators,
and nothing else (`World.Writes`); so what all jobs and the clock do
together leaves alone whatever belongs to no job (`World.Passes`). This is
true of every driver from the start (`Job.tame_drive`) and stays true turn
by turn (`Serves.each`); it does not matter whether the run is still known
to the store.

What serving a request comes to is put together from what each change does
(`Serves.relates`).
-/
import Automation.Proofs.Engine.CoverageTheorems
import Automation.Proofs.Engine.MirrorTheorems
import Automation.Proofs.Engine.ScheduleTheorems

namespace Automation

open Process

/-! ## Beside the others -/

/-- What may be done on the runs of some ids, and by the clock. -/
structure World.Passes (P : String → Prop) (w w' : World) : Prop where
  now : w.now ≤ w'.now
  registry : w'.registry = w.registry
  series : w'.series = w.series
  runs : w'.runs = w.runs
  fired : w'.store.fired = w.store.fired
  tokens : w.store.tokens ≤ w'.store.tokens
  entries : ∀ id, ¬P id → w'.store.entry? id = w.store.entry? id
  fates : ∀ id, ¬P id → w'.background.lookup id = w.background.lookup id
  keys : w'.background.map (·.1) = w.background.map (·.1)
  ended : ∀ id, w.hasEnded id = true → w'.hasEnded id = true
  /-- Where entries come from: their tokens are new, or those of such runs. -/
  origin : ∀ e ∈ w'.store.entries, e ∈ w.store.entries ∨ P e.run.id ∧
    (w.store.tokens ≤ e.token ∧ e.token < w'.store.tokens ∨
      ∃ e₀ ∈ w.store.entries, P e₀.run.id ∧ e₀.token = e.token)

namespace World.Passes

variable {P P' : String → Prop} {w w₁ w₂ : World}

theorem rfl : w.Passes P w :=
  ⟨Nat.le_refl _, Eq.refl _, Eq.refl _, Eq.refl _, Eq.refl _, Nat.le_refl _,
    fun _ _ => Eq.refl _, fun _ _ => Eq.refl _, Eq.refl _, fun _ => id, fun _ he => Or.inl he⟩

theorem trans (h : w.Passes P w₁) (h' : w₁.Passes P w₂) : w.Passes P w₂ where
  now := Nat.le_trans h.now h'.now
  registry := h'.registry.trans h.registry
  series := h'.series.trans h.series
  runs := h'.runs.trans h.runs
  fired := h'.fired.trans h.fired
  tokens := Nat.le_trans h.tokens h'.tokens
  entries id hid := (h'.entries id hid).trans (h.entries id hid)
  fates id hid := (h'.fates id hid).trans (h.fates id hid)
  keys := h'.keys.trans h.keys
  ended id hid := h'.ended id (h.ended id hid)
  origin e he := by
    rcases h'.origin e he with he₁ | ⟨hP, ⟨hnew, hlt⟩ | ⟨e₁, he₁, hP₁, htoken⟩⟩
    · refine (h.origin e he₁).imp_right (And.imp_right (Or.imp_left (And.imp_right ?_)))
      exact fun hlt => Nat.lt_of_lt_of_le hlt h'.tokens
    · exact Or.inr ⟨hP, Or.inl ⟨Nat.le_trans h.tokens hnew, hlt⟩⟩
    · refine Or.inr ⟨hP, ?_⟩
      rw [← htoken]
      rcases h.origin e₁ he₁ with he₀ | ⟨-, ⟨hnew, hlt⟩ | hold⟩
      · exact Or.inr ⟨e₁, he₀, hP₁, Eq.refl _⟩
      · exact Or.inl ⟨hnew, Nat.lt_of_lt_of_le hlt h'.tokens⟩
      · exact Or.inr hold

theorem mono (hP : ∀ id, P id → P' id) (h : w.Passes P w₁) : w.Passes P' w₁ where
  now := h.now
  registry := h.registry
  series := h.series
  runs := h.runs
  fired := h.fired
  tokens := h.tokens
  entries id hid := h.entries id (mt (hP id) hid)
  fates id hid := h.fates id (mt (hP id) hid)
  keys := h.keys
  ended := h.ended
  origin e he := by
    refine (h.origin e he).imp_right (And.imp (hP _) (Or.imp_right ?_))
    exact fun ⟨e₀, he₀, hP₀, htoken⟩ => ⟨e₀, he₀, hP _ hP₀, htoken⟩

theorem setNow (w : World) (now : Nat) : w.Passes P { w with now := max w.now now } :=
  ⟨Nat.le_max_left _ _, Eq.refl _, Eq.refl _, Eq.refl _, Eq.refl _, Nat.le_refl _,
    fun _ _ => Eq.refl _, fun _ _ => Eq.refl _, Eq.refl _, fun _ => id, fun _ he => Or.inl he⟩

theorem endRun {id : String} (hid : P id) (w : World) (run : Run) :
    w.Passes P (w.endRun id run) where
  now := Nat.le_refl _
  registry := Eq.refl _
  series := Eq.refl _
  runs := Eq.refl _
  fired := Eq.refl _
  tokens := Nat.le_refl _
  entries _ _ := Eq.refl _
  fates id' hid' := World.lookup_endRun_ne fun heq => hid' (heq ▸ hid)
  keys := by
    simp only [World.endRun, List.map_map]
    refine List.map_congr_left fun entry _ => ?_
    by_cases h : entry.1 = id
    · simp [h]
    · simp [h]
  ended id' hid' := by
    by_cases heq : id' = id
    · obtain ⟨r, hr⟩ := World.hasEnded_iff.mp hid'
      refine World.hasEnded_iff.mpr ⟨run, ?_⟩
      rw [heq, World.lookup_endRun, ← heq, hr]
      rfl
    · have hsame : (w.endRun id run).background.lookup id' = w.background.lookup id' :=
        World.lookup_endRun_ne heq
      unfold World.hasEnded at hid' ⊢
      rwa [hsame]
  origin _ he := Or.inl he

theorem addServices (w : World) (services : Services) : w.Passes P { w with services } :=
  ⟨Nat.le_refl _, Eq.refl _, Eq.refl _, Eq.refl _, Eq.refl _, Nat.le_refl _,
    fun _ _ => Eq.refl _, fun _ _ => Eq.refl _, Eq.refl _, fun _ => id, fun _ he => Or.inl he⟩

theorem saveRun {run : Run} (hid : P run.id) (w : World) : w.Passes P (w.saveRun run).2 := by
  have hentries : ∀ id, ¬P id → (w.saveRun run).2.store.entry? id = w.store.entry? id :=
    fun id hid' => Store.entry?_save_ne fun heq => hid' (heq ▸ hid)
  have hfired : (w.saveRun run).2.store.fired = w.store.fired := Store.save_fired w.store run
  suffices h : w.store.tokens ≤ (w.saveRun run).2.store.tokens ∧
      ∀ e ∈ (w.saveRun run).2.store.entries, e ∈ w.store.entries ∨ P e.run.id ∧
        (w.store.tokens ≤ e.token ∧ e.token < (w.saveRun run).2.store.tokens ∨
          ∃ e₀ ∈ w.store.entries, P e₀.run.id ∧ e₀.token = e.token) from
    ⟨Nat.le_refl _, Eq.refl _, Eq.refl _, Eq.refl _, hfired, h.1, hentries, fun _ _ => Eq.refl _,
      Eq.refl _, fun _ => id, h.2⟩
  show _ ≤ (w.store.save run).2.tokens ∧ ∀ e ∈ (w.store.save run).2.entries, e ∈ _ ∨ P e.run.id ∧
    (_ ∧ e.token < (w.store.save run).2.tokens ∨ _)
  cases hentry : w.store.entry? run.id with
  | none =>
    rw [Store.save_of_none hentry]
    refine ⟨Nat.le_succ _, fun e he => ?_⟩
    rcases Store.mem_place he with rfl | he
    · exact Or.inr ⟨hid, Or.inl ⟨Nat.le_refl _, Nat.lt_succ_self _⟩⟩
    · exact Or.inl he
  | some e₀ =>
    rw [Store.save_of_entry hentry]
    refine ⟨Nat.le_refl _, fun e he => ?_⟩
    rcases Store.mem_place he with rfl | he
    · have hid₀ : P e₀.run.id := (Store.entry?_id hentry).symm ▸ hid
      rw [Store.merge_id]
      exact Or.inr ⟨hid, Or.inr ⟨e₀, List.mem_of_find?_eq_some hentry, hid₀, Eq.refl _⟩⟩
    · exact Or.inl he

theorem isFired (h : w.Passes P w₁) (k : Nat) : w₁.store.isFired k = w.store.isFired k := by
  unfold Store.isFired
  rw [h.fired]

theorem isBehind (h : w.Passes P w₁) (id : String) : w₁.isBehind id = w.isBehind id := by
  have hany : ∀ w : World, w.isBehind id = (w.background.map (·.1)).any (· == id) := by
    intro w
    rw [World.isBehind, List.any_map]
    rfl
  rw [hany, hany, h.keys]

end World.Passes

/-- What the driver of a run does: no time passes, and nothing is done on
other runs. -/
structure World.Writes (i : String) (w w' : World) : Prop extends w.Passes (· = i) w' where
  still : w'.now = w.now
  background : w'.background = w.background

namespace World.Writes

variable {i : String} {w w₁ w₂ : World}

theorem rfl : w.Writes i w :=
  ⟨.rfl, Eq.refl _, Eq.refl _⟩

theorem trans (h : w.Writes i w₁) (h' : w₁.Writes i w₂) : w.Writes i w₂ :=
  ⟨h.toPasses.trans h'.toPasses, h'.still.trans h.still, h'.background.trans h.background⟩

end World.Writes

/-- Each change of a drive is on its run. -/
theorem Engine.writes_drive (e : Engine) (w : Workflow) (run : Run) (token : Nat) :
    (e.drive w run token).Does (World.Writes run.id) := by
  refine e.does_drive (fun _ => .rfl) ?_ ?_ w token
  · exact fun s r hr => ⟨.saveRun (P := (· = run.id)) hr s, rfl, rfl⟩
  · exact fun s services => ⟨.addServices s services, rfl, rfl⟩

/-- No time passes, and tokens that were fired stay so. -/
structure World.Bides (w w' : World) : Prop where
  now : w'.now = w.now
  tokens : w.TokensStay w'

namespace World.Bides

variable {w w₁ w₂ : World}

theorem rfl : w.Bides w :=
  ⟨Eq.refl _, fun _ h => h⟩

theorem trans (h : w.Bides w₁) (h' : w₁.Bides w₂) : w.Bides w₂ :=
  ⟨h'.now.trans h.now, fun k hk => h'.tokens k (h.tokens k hk)⟩

end World.Bides

/-! ## Jobs -/

/-- What a job does by each change, and by its end. -/
structure Job.Does (job : Job) (ok : World → World → Prop) : Prop where
  process : job.process.Does ok
  ends : ∀ w run, ok w (w.endRun job.id run)

/-- A job that does what a driver does, and comes to no more stops than it is
reckoned with. -/
structure Job.Tame (job : Job) : Prop where
  within : ∃ k, job.process.Within (Wait.CutBy k) job.stops
  writes : job.process.Does (World.Writes job.id)

theorem Job.tame_drive (e : Engine) (w : Workflow) (run : Run) (token : Nat) :
    Job.Tame ⟨run.id, e.drive w run token, Engine.stops w, false⟩ :=
  ⟨⟨token, e.within_drive_stops w run token⟩, e.writes_drive w run token⟩

theorem Job.Tame.passes {job : Job} {P : String → Prop} (h : job.Tame) (hid : P job.id) :
    job.Does (World.Passes P) where
  process := h.writes.mono fun _ _ hw => hw.toPasses.mono (by rintro _ rfl; exact hid)
  ends w run := .endRun hid w run

/-- What a tame job does in a turn. -/
theorem Job.Tame.turn {job : Job} (h : job.Tame) (access : Access) (w : World) :
    w.Writes job.id (job.process.turn World.signals Process.share access w).state :=
  (h.writes.turn (fun _ => .rfl) (fun _ _ _ => .trans) World.signals _ _ _).1

theorem Job.Tame.unlocked {job : Job} (h : job.unlocked.Tame) : job.Tame :=
  ⟨h.within, h.writes⟩

namespace Process

variable {σ α : Type}

/-- What holds of every result holds of those that are left after a turn. -/
theorem Always.turn {post : α → Prop} {p : Process σ α} (h : p.Always post)
    (signals : σ → Signals) (left : Nat) (access : Access) (s : σ) :
    (p.turn signals left access s).outcome.rest.Always post := by
  let c : Company σ := ⟨signals, fun _ _ _ => True, fun _ _ => trivial, fun _ _ _ _ _ _ => trivial⟩
  exact (Course.turn (c := c) left access .start).of_always h

/-- A turn that begins at a lock ends there, or goes on after the change. -/
theorem turn_locked (signals : σ → Signals) (change : σ → σ) (next : σ → Process σ α) (left : Nat)
    (access : Access) (s : σ) :
    (((locked change next).turn signals left access s).outcome.rest = locked change next ∧
      ((locked change next).turn signals left access s).state = s) ∨
    ∃ left' access', (locked change next).turn signals left access s =
      (next s).turn signals left' access' (change s) := by
  cases access with
  | taken => exact Or.inl ⟨rfl, rfl⟩
  | own wanted => exact Or.inr ⟨_, _, rfl⟩
  | free =>
    cases left with
    | zero => exact Or.inl ⟨rfl, rfl⟩
    | succ left => exact Or.inr ⟨_, _, rfl⟩

end Process

namespace Schedule

variable {α : Type} {s t : Schedule} {p q : Process World α}

/-! ## Each job -/

section

-- what holds of a job goes on to hold after a turn, whoever has the lock
variable {C : Job → Prop} (hC : ∀ (job : Job) access w, C job →
  C { job with
    process := (job.process.turn World.signals Process.share access w).outcome.rest
    locks := false })

include hC

theorem each_take {job : Job} (hjob : C job.unlocked) (hjobs : ∀ job ∈ s.jobs, C job) :
    ∀ job' ∈ (s.take job).jobs, C job' := by
  obtain ⟨outcome, left', v, ht, hsame, htake⟩ := s.exists_take job
  have hrest := hC job.unlocked (s.access job.locks) s.world hjob
  rw [ht] at hrest
  rw [htake]
  rcases outcome.ended_or_goes with ⟨run, rfl⟩ | hgoes
  · exact hsame ▸ hjobs
  · rw [jobs_put hgoes, hsame]
    intro job' hjob'
    rcases Multiset.mem_cons.mp hjob' with rfl | hjob'
    · exact hrest
    · exact hjobs job' hjob'

/-- While a request is served, it goes on to hold of each job. -/
theorem Serves.each (h : Serves s p q t) (hjobs : ∀ job ∈ s.jobs, C job) :
    ∀ job ∈ t.jobs, C job := by
  induction h with
  | start => exact hjobs
  | request _ _ ih =>
    rw [jobs_turn]
    exact ih
  | @job q t job ready _ hready ih =>
    rw [jobs_cons hready] at ih
    refine each_take hC (s := { t with ready }) ?_ ?_
    · exact ih job.unlocked (Multiset.mem_cons_self _ _)
    · exact fun job' hjob' => ih job' (Multiset.mem_cons_of_mem hjob')
  | round _ ih =>
    rw [jobs_again]
    exact ih
  | @clock q t now _ ih =>
    have hsame : (t.setClock now).jobs = t.jobs := jobs_rouse _
    rw [hsame]
    exact ih

theorem each_serve (stops : Nat) (p : Process World α) (hjobs : ∀ job ∈ s.jobs, C job) :
    ∀ job ∈ (s.serve stops p).2.jobs, C job := by
  have hserved := s.served stops p
  generalize s.serve stops p = served at hserved
  obtain ⟨a?, t⟩ := served
  cases a? with
  | none =>
    obtain ⟨q, hserves⟩ := hserved
    exact hserves.each hC hjobs
  | some a =>
    obtain ⟨q, u, hserves, hturn⟩ := hserved
    obtain ⟨-, -, hsame⟩ := turn_eq hturn
    rw [hsame]
    exact hserves.each hC hjobs

end

/-- Tame jobs stay tame. -/
theorem tame_turn (job : Job) (access : Access) (w : World) (h : job.Tame) :
    Job.Tame { job with
      process := (job.process.turn World.signals Process.share access w).outcome.rest
      locks := false } := by
  obtain ⟨k, hk⟩ := h.within
  refine ⟨⟨k, hk.turn World.signals _ _ _⟩, ?_⟩
  exact (h.writes.turn (fun _ => .rfl) (fun _ _ _ => .trans) World.signals _ _ _).2

/-- Drivers that are put into the background are tame. -/
theorem tame_background (h : ∀ job ∈ s.jobs, job.Tame) (e : Engine) (w : Workflow) (run : Run)
    (token : Nat) : ∀ job ∈ (s.background e w run token).jobs, job.Tame := by
  intro job hjob
  rw [jobs_background] at hjob
  rcases Multiset.mem_cons.mp hjob with rfl | hjob
  · exact Job.tame_drive e w run token
  · exact h job hjob

/-! ## What serving comes to -/

section

variable {ok : World → World → Prop} (hrefl : ∀ w, ok w w)
  (htrans : ∀ w w₁ w₂, ok w w₁ → ok w₁ w₂ → ok w w₂)

include hrefl htrans

theorem does_turn_job (job : Job) (access : Access) (w : World) (h : job.Does ok) :
    Job.Does { job with
      process := (job.process.turn World.signals Process.share access w).outcome.rest
      locks := false } ok :=
  ⟨(h.process.turn hrefl htrans World.signals _ _ _).2, h.ends⟩

theorem relates_take {job : Job} (h : job.Does ok) : ok s.world (s.take job).world := by
  obtain ⟨outcome, left', v, ht, -, htake⟩ := s.exists_take job
  have hturn := (Does.turn (p := job.unlocked.process) hrefl htrans World.signals Process.share
    (s.access job.locks) s.world h.process).1
  rw [ht] at hturn
  rw [htake]
  rcases outcome.ended_or_goes with ⟨run, rfl⟩ | hgoes
  · exact htrans _ _ _ hturn (h.ends v.world run)
  · rwa [put_world hgoes]

end

/-- A tame job that takes a turn leaves everything as jobs may. -/
theorem passes_take {job : Job} (h : job.Tame) :
    s.world.Passes (fun _ => True) (s.take job).world :=
  relates_take (fun _ => .rfl) (fun _ _ _ => .trans) (h.passes trivial)

/-- What the jobs do by each change, and the clock, put together. -/
structure Does (s : Schedule) (ok : World → World → Prop) : Prop where
  refl : ∀ w, ok w w
  trans : ∀ w w₁ w₂, ok w w₁ → ok w₁ w₂ → ok w w₂
  clock : ∀ (w : World) now, ok w { w with now := max w.now now }
  jobs : ∀ job ∈ s.jobs, job.Does ok

section

variable {ok : World → World → Prop} (hs : s.Does ok)

include hs

/-- The first job takes its turn. -/
theorem Does.take {job : Job} {ready : List Job} (h : Serves s p q t)
    (hready : t.ready = job :: ready) : ok t.world (Schedule.take { t with ready } job).world := by
  have hjob := h.each (does_turn_job hs.refl hs.trans) hs.jobs
  rw [jobs_cons hready] at hjob
  have hmem := hjob _ (Multiset.mem_cons_self _ _)
  have hdoes : job.Does ok := ⟨hmem.process, hmem.ends⟩
  exact relates_take (s := { t with ready }) hs.refl hs.trans hdoes

/-- A request takes a turn. -/
theorem Does.turn (hp : p.Does ok) (left : Nat) (access : Access) (w : World) :
    ok w (p.turn World.signals left access w).state ∧
      (p.turn World.signals left access w).outcome.rest.Does ok :=
  Process.Does.turn hs.refl hs.trans World.signals left access w hp

/-- **What serving comes to** is what each change of the request and of the jobs
and of the clock does. -/
theorem Serves.relates (hp : p.Does ok) (h : Serves s p q t) : ok s.world t.world ∧ q.Does ok := by
  induction h with
  | start => exact ⟨hs.refl _, hp⟩
  | @request q t _ _ ih =>
    obtain ⟨hgoes, hrest⟩ := hs.turn ih.2 t.left (t.access t.locks) t.world
    rw [turn_world, turn_fst]
    exact ⟨hs.trans _ _ _ ih.1 hgoes, hrest⟩
  | job hserves hready ih => exact ⟨hs.trans _ _ _ ih.1 (hs.take hserves hready), ih.2⟩
  | round _ ih => exact ih
  | @clock q t now _ ih => exact ⟨hs.trans _ _ _ ih.1 (hs.clock t.world now), ih.2⟩

theorem relates_serve (stops : Nat) (hp : p.Does ok) : ok s.world (s.serve stops p).2.world := by
  have hserved := s.served stops p
  generalize s.serve stops p = served at hserved
  obtain ⟨a?, t⟩ := served
  cases a? with
  | none =>
    obtain ⟨q, hserves⟩ := hserved
    exact (hserves.relates hs hp).1
  | some a =>
    obtain ⟨q, u, hserves, hturn⟩ := hserved
    obtain ⟨hok, hq⟩ := hserves.relates hs hp
    have hlast := (hs.turn hq u.left (u.access u.locks) u.world).1
    rw [← turn_world, hturn] at hlast
    exact hs.trans _ _ _ hok hlast

end

end Schedule

end Automation
