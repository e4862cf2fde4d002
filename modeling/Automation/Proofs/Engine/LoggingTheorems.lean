/-
Automation.Proofs.Engine.LoggingTheorems — settings of logs change the logs
and nothing else.

A run is set off twice in the same world, once with everything logged and
once as some settings say. The worlds that come of this, whatever is done in
them afterwards, are the same but for the log entries of this run that the
settings do not keep (`World.logged`): the two schedules stand alike, turn by
turn.

Three things are put together. The driver of the run is the image of the
driver that logs everything (`Mirror.logs`). Drivers of other runs hand in
their own records and look at no others, so they go alike in worlds that
differ in the logs of this run (`Job.Blind`); and so does what is asked of
the engine (`Alike.obey`), since no operation of the store looks at logs.
-/
import Automation.Proofs.Engine.OrderTheorems
import Automation.Proofs.Engine.TandemTheorems
import Automation.Proofs.Run.LoggedTheorems

namespace Automation

open Process
open Automation.Json (Value)

/-! ## Drivers of other runs -/

/-- Worlds that are the same, perhaps but for log entries of `i`; and what is
done to both of them is the same, up to those. -/
def Likeness.quiet (i : String) (l : Logging) : Likeness World World where
  states s t := s = t ∨ s = t.logged i l
  steps s t s' t' := (s = t → s' = t') ∧ (s = t.logged i l → s' = t'.logged i l) ∧
    t'.series = t.series ∧ t'.runs = t.runs
  waits := Eq

namespace Likeness

variable {i : String} {l : Logging}

theorem signals_quiet {s t : World} (h : (quiet i l).states s t) : s.signals = t.signals := by
  rcases h with rfl | rfl
  · rfl
  · exact World.signals_logged

theorem quiet_steady : (quiet i l).Steady World.signals World.signals where
  steps hs hstep := hs.imp hstep.1 hstep.2.1
  wake? hwait hs := by
    rw [show _ = _ from hwait, signals_quiet hs]
  price hwait _ := by rw [show _ = _ from hwait]

end Likeness

/-- A job goes alike in worlds that differ in the logs of another run. -/
def Job.Blind (job : Job) : Prop :=
  ∀ i l, job.id ≠ i → job.process.Alike (.quiet i l) Eq job.process

theorem Job.blind_drive (e : Engine) (w : Workflow) (run : Run) (token : Nat) :
    Job.Blind ⟨run.id, e.drive w run token, Engine.stops w, false⟩ := by
  intro i l hne
  have htwin := Engine.alike_drive_twin (.quiet i l) (fun r => r.id = run.id) (w := w)
    ?_ ?_ ?_ ?_ (fun _ => rfl) ?_ e token rfl
  · exact htwin.mono fun _ _ h => h.1
  · intro s t hs
    have hsignals := Likeness.signals_quiet hs
    refine ⟨congrArg Signals.now hsignals, ?_, fun k => congrArg (·.isFired k) hsignals⟩
    rcases hs with rfl | rfl
    · rfl
    · rfl
  · exact fun s t _ => ⟨fun h => h, fun h => h, rfl, rfl⟩
  · intro s t r hs hr
    have hlogged : (t.logged i l).saveRun r =
        ((t.saveRun r).1, (t.saveRun r).2.logged i l) := by
      have hne' : r.id ≠ i := hr ▸ hne
      have hsave := World.saveRun_logged (i := i) (l := l) (w := t) (r := r)
      rwa [Run.loggedIf_ne hne', Run.loggedIf_ne hne'] at hsave
    refine ⟨⟨?_, ?_, rfl, rfl⟩, ?_, (Store.save_id t.store r).trans hr⟩
    · rintro rfl
      rfl
    · rintro rfl
      rw [hlogged]
    · rcases hs with rfl | rfl
      · rfl
      · rw [hlogged]
  · exact fun s t services _ => ⟨by rintro rfl; rfl, by rintro rfl; rfl, rfl, rfl⟩
  · exact fun r r' hr h => h.id_eq.trans hr

/-- It goes on to do so turn by turn. -/
theorem Job.Blind.turn (job : Job) (access : Access) (w : World) (h : job.Blind) :
    Job.Blind { job with
      process := (job.process.turn World.signals Process.share access w).outcome.rest
      locks := false } := by
  intro i l hne
  have hsame : (Likeness.quiet i l).states w w := Or.inl rfl
  have hturn := (h i l hne).turn Likeness.quiet_steady Process.share access hsame
  exact Schedule.Alike.rest hturn.outcome

/-! ## Worlds that differ in logs -/

/-- What differs is the logs of `i`; so many runs of a series were set off at
least. -/
def Likeness.kept (i : String) (l : Logging) (ids : Series) (n : Nat) : Likeness World World where
  states s t := s = t.logged i l ∧ t.series = ids ∧ n ≤ t.runs
  steps _ t s' t' := s' = t'.logged i l ∧ t'.series = t.series ∧ t.runs ≤ t'.runs
  waits := Eq

/-- The results of a run are alike. -/
def Run.Kept (i : String) (l : Logging) (id : String) (r r' : Run) : Prop :=
  r = r'.loggedIf i l id

section

variable {i : String} {l : Logging} {ids : Series} {n : Nat}

/-- Either both have a result, or none. -/
theorem Run.eq_of_rel {r? r'? : Option Run} (h : Option.Rel (Run.Kept i l i) r? r'?) :
    r? = r'?.map (.logged l) := by
  cases h with
  | none => rfl
  | some hr => exact congrArg some (hr.trans Run.loggedIf_self)

theorem Likeness.kept_worldly : (kept i l ids n).Worldly (Run.Kept i l) where
  waits h := h
  steps := by
    rintro _ t s' t' ⟨-, hids, hn⟩ ⟨hs', hseries, hruns⟩
    exact ⟨hs', hseries.trans hids, Nat.le_trans hn hruns⟩
  signals := by
    rintro s t ⟨rfl, -⟩
    exact World.signals_logged
  clock := by
    rintro s t now ⟨rfl, hids, hn⟩
    exact ⟨rfl, hids, hn⟩
  endRun := by
    rintro s t id r r' ⟨rfl, hids, hn⟩ rfl
    exact ⟨World.endRun_logged, hids, hn⟩

theorem Job.Blind.kept {job : Job} (h : job.Blind) (hne : job.id ≠ i) :
    job.Alike (.kept i l ids n) (Run.Kept i l) job := by
  refine ⟨rfl, rfl, rfl, ?_⟩
  have hquiet : job.process.Alike (.kept i l ids n) Eq job.process := by
    refine (h i l hne).restrict ?_ ?_ ?_
    · exact fun s t hs => Or.inr hs.1
    · exact fun s t s' t' hs hstep =>
        ⟨hstep.2.1 hs.1, hstep.2.2.1, Nat.le_of_eq hstep.2.2.2.symm⟩
    · exact fun _ _ hwait => hwait
  refine hquiet.mono ?_
  rintro r _ rfl
  exact (Run.loggedIf_ne hne).symm

/-! ## The driver of the run -/

/-- The driver of the run, beside the one that logs everything. -/
def Mirror.logs (i : String) (l : Logging) (ids : Series) (n : Nat) (e : Engine) (w : Workflow)
    (token : Nat) : Mirror where
  toLikeness := .kept i l ids n
  view := l.view
  workflow := w.withLogging .full
  logging := l
  executors := e.executors
  executors' := e.executors
  token
  token' := token
  owns r := r.id = i

theorem Mirror.runs_logs {e : Engine} {w : Workflow} {token : Nat} {r r' : Run} :
    (Mirror.logs i l ids n e w token).runs r r' ↔ r = r'.logged l ∧ r'.id = i :=
  (Mirror.runs_iff rfl).trans (by rw [logs, l.run_view])

theorem Mirror.logs_sound (e : Engine) (w : Workflow) (token : Nat) :
    (Mirror.logs i l ids n e w token).Sound where
  now := by
    rintro s t ⟨rfl, -⟩
    rfl
  isFired := by
    rintro s t ⟨rfl, -⟩
    rfl
  look := by
    rintro s t ⟨rfl, -⟩
    exact ⟨rfl, rfl, Nat.le_refl _⟩
  save := by
    rintro s t r r' ⟨rfl, -⟩ hr
    obtain ⟨rfl, rfl⟩ := Mirror.runs_logs.mp hr
    have hsave := World.saveRun_logged (i := r'.id) (l := l) (w := t) (r := r')
    rw [Run.loggedIf_self, Run.loggedIf_self] at hsave
    rw [hsave]
    exact ⟨⟨rfl, rfl, Nat.le_refl _⟩, Mirror.runs_logs.mpr ⟨rfl, Store.save_id t.store r'⟩⟩
  calls := by
    intro node _
    dsimp only [Mirror.logs]
    cases e.executors node.type with
    | none => exact .none
    | some executor =>
      refine .some ?_
      rintro s t r r' ⟨rfl, -⟩ hr
      obtain ⟨rfl, -⟩ := Mirror.runs_logs.mp hr
      exact ⟨.refl _ _ _, fun _ deadline => by simp [Likeness.kept], rfl, rfl, Nat.le_refl _⟩
  waits_nothing := by simp [Mirror.logs, Likeness.kept]
  waits_instant := by simp [Mirror.logs, Likeness.kept]
  logs := l.seenBy
  owns hr h := h.id_eq.trans hr

/-- **The driver of the run goes alike**, whatever is logged. -/
theorem Engine.alike_drive_logs (e : Engine) (w : Workflow) {run : Run} (token : Nat)
    (hid : run.id = i) (hnodes : run.nodes = []) :
    (e.drive (w.withLogging l) run token).Alike (.kept i l ids n) (Run.Kept i l i)
      (e.drive (w.withLogging .full) run token) := by
  have hsame : run = run.logged l := by
    rw [← Run.loggedIf_self (i := i), Run.loggedIf_of_nodes hnodes]
  have hsound : (Mirror.logs i l ids n e w token).Sound := Mirror.logs_sound e w token
  have hdrive := hsound.alike_drive (Eq.refl e.executors) (Eq.refl e.executors)
    (Mirror.runs_logs.mpr ⟨hsame, hid⟩)
  refine hdrive.mono fun r r' hr => ?_
  rw [(Mirror.runs_logs.mp hr).1, Run.Kept, Run.loggedIf_self]

/-! ## Requests -/

/-- What changes the store as if nothing had been logged. -/
theorem alike_store {α β : Type} {results : α → β → Prop} {f : World → α × World}
    {g : World → β × World}
    (h : ∀ t : World, (f (t.logged i l)).2 = (g t).2.logged i l ∧
      results (f (t.logged i l)).1 (g t).1)
    (hseries : ∀ t, (g t).2.series = t.series) (hruns : ∀ t, (g t).2.runs = t.runs) :
    (stepLocked f).Alike (.kept i l ids n) results (stepLocked g) := by
  refine alike_stepLocked ?_
  rintro s t ⟨rfl, -⟩
  exact ⟨⟨(h t).1, hseries t, Nat.le_of_eq (hruns t).symm⟩, (h t).2⟩

theorem alike_look {s t : World} (h : (Likeness.kept i l ids n).states s t) :
    (Likeness.kept i l ids n).steps s t s t :=
  ⟨h.1, rfl, Nat.le_refl _⟩

/-- A check finds the same. -/
theorem Workflow.alike_check (w : Workflow) {run : Run} (hnodes : run.nodes = []) (now token : Nat) :
    (w.check run now token).Alike (.kept i l ids n)
      (fun a b => a = b ∧ a.1.id = run.id ∧ a.1.nodes = []) (w.check run now token) := by
  unfold check
  split
  · exact alike_done ⟨rfl, rfl, hnodes⟩
  · generalize hfailed : run.fail _ now = failed
    have hid : failed.id = run.id := hfailed ▸ rfl
    have hblank : failed.nodes = [] := hfailed ▸ hnodes
    have hsave : (Driver.save failed).Alike (.kept i l ids n)
        (fun a b => a = b ∧ a.id = run.id ∧ a.nodes = []) (Driver.save failed) := by
      refine alike_store (fun t => ?_) (fun _ => rfl) fun _ => rfl
      have hsave := World.saveRun_logged (i := i) (l := l) (w := t) (r := failed)
      have hsaved : (t.saveRun failed).1.nodes = [] :=
        (Store.save_nodes t.store failed).trans hblank
      rw [Run.loggedIf_of_nodes hblank, Run.loggedIf_of_nodes hsaved] at hsave
      rw [hsave]
      exact ⟨rfl, rfl, (Store.save_id t.store failed).trans hid, hsaved⟩
    refine hsave.bind ?_
    rintro r _ ⟨rfl, hr⟩
    exact alike_done ⟨rfl, hr⟩

/-- A run is entered, and what is done then goes alike if it has no records of
nodes. -/
theorem Engine.alike_enters {α β : Type} {results : α → β → Prop} (e : Engine) (w : Workflow)
    (payload : Value) (options : RunOptions) (now : Nat) (id : String)
    {k : Run × Nat → Process World α} {k' : Run × Nat → Process World β}
    (hk : ∀ (r : Run) token, r.id = id → r.nodes = [] →
      (k (r, token)).Alike (.kept i l ids n) results (k' (r, token))) :
    (e.enters w payload options now id k).Alike (.kept i l ids n) results
      (e.enters w payload options now id k') := by
  rintro s t ⟨rfl, -⟩
  have hadd := World.addRun_logged (i := i) (l := l) (w := t)
    (r := e.first w payload options now id)
  rw [Run.loggedIf_of_nodes rfl] at hadd
  dsimp only
  rw [hadd]
  refine ⟨⟨rfl, rfl, Nat.le_succ _⟩, (w.alike_check rfl now _).bind ?_⟩
  rintro ⟨r, token⟩ _ ⟨rfl, hid, hblank⟩
  exact hk r token hid hblank

/-- Another run is set off. -/
theorem Engine.alike_setOff {α β : Type} {results : α → β → Prop} (e : Engine) (w : Workflow)
    (payload : Value) (options : RunOptions) (hi : i = ids.id n)
    {k : Run × Nat → Process World α} {k' : Run × Nat → Process World β}
    (hk : ∀ (r : Run) token, r.id ≠ i →
      (k (r, token)).Alike (.kept i l ids n) results (k' (r, token))) :
    (e.prepare w payload options >>= k).Alike (.kept i l ids n) results
      (e.prepare w payload options >>= k') := by
  rw [e.prepare_bind, e.prepare_bind]
  refine alike_read_bind (fun _ _ => alike_look) ?_
  rintro s t ⟨rfl, -⟩
  refine alike_read_bind (fun _ _ => alike_look) ?_
  rintro _ t' ⟨rfl, hids, hn⟩
  refine e.alike_enters w payload options t.now _ fun r token hid _ => hk r token ?_
  have hnext : (t'.logged i l).nextRun = ids.id (t'.runs + 1) :=
    congrArg (fun series => Series.id series (t'.runs + 1)) hids
  rw [hid, hnext, hi]
  intro heq
  have := Series.id_inj.mp heq
  omega

/-! ## Orders -/

namespace Schedule

variable {s s' : Schedule}

section

variable (h : s.Alike (.kept i l ids n) (Run.Kept i l) s')

include h

theorem Alike.serve_kept {α β : Type} {results : α → β → Prop} (stops : Nat) {p : Process World α}
    {p' : Process World β} (hp : p.Alike (.kept i l ids n) results p') :
    Option.Rel results (s.serve stops p).1 (s'.serve stops p').1 ∧
      (s.serve stops p).2.Alike (.kept i l ids n) (Run.Kept i l) (s'.serve stops p').2 :=
  Schedule.Alike.serve Likeness.kept_worldly Likeness.kept_worldly.steps h stops hp

theorem Alike.background_kept {e : Engine} {w w' : Workflow} {run : Run} {token : Nat}
    (hjob : Job.Alike (.kept i l ids n) (Run.Kept i l)
      ⟨run.id, e.drive w run token, Engine.stops w, false⟩
      ⟨run.id, e.drive w' run token, Engine.stops w', false⟩) :
    (s.background e w run token).Alike (.kept i l ids n) (Run.Kept i l)
      (s'.background e w' run token) := by
  have hleft : (Likeness.kept i l ids n).states (s.world.leaveRun run.id)
      (s'.world.leaveRun run.id) := by
    obtain ⟨hworld, hids, hn⟩ := h.world
    refine ⟨?_, hids, hn⟩
    rw [hworld]
    exact World.leaveRun_logged
  exact Schedule.Alike.addJob h hleft hjob

/-- Whoever waits for a run gets the same, up to the log entries. -/
theorem Alike.join (id : String) : (s.join id).1 = (s'.join id).1.map (.loggedIf i l id) ∧
    (s.join id).2.Alike (.kept i l ids n) (Run.Kept i l) (s'.join id).2 := by
  have hbehind : s.world.isBehind id = s'.world.isBehind id := by
    rw [h.world.1]
    exact World.isBehind_logged
  have hfetch : (Process.pause { due := .run id } >>= fun _ => .step (·.fetchRun id)).Alike
      (.kept i l ids n) (fun a b => a = b.map (.loggedIf i l id))
      (.pause { due := .run id } >>= fun _ => .step (·.fetchRun id)) := by
    refine Alike.bind (fun _ _ _ => alike_step ?_) (alike_pause rfl)
    rintro s t ⟨rfl, -⟩
    dsimp only
    rw [World.fetchRun_logged]
    exact ⟨⟨rfl, rfl, Nat.le_refl _⟩, rfl⟩
  obtain ⟨hanswers, hafter⟩ := h.serve_kept 1 hfetch
  rw [join_eq, join_eq, hbehind]
  split
  · refine ⟨?_, hafter⟩
    generalize (s.serve 1 _).1 = answer, (s'.serve 1 _).1 = answer' at hanswers
    cases hanswers with
    | none => rfl
    | some hr => exact hr
  · exact ⟨rfl, h⟩

/-- Putting another run into the background is done alike. -/
theorem Alike.spawn (hi : i = ids.id n) (e : Engine) (w : Workflow) (payload : Value)
    (options : RunOptions) : (s.spawn e w payload options).2.Alike (.kept i l ids n) (Run.Kept i l)
      (s'.spawn e w payload options).2 := by
  have hprepare : (e.prepare w payload options).Alike (.kept i l ids n)
      (fun a b => a = b ∧ a.1.id ≠ i) (e.prepare w payload options) := by
    rw [← bind_done (e.prepare w payload options)]
    exact e.alike_setOff w payload options hi fun r token hne => alike_done ⟨rfl, hne⟩
  obtain ⟨hanswers, hafter⟩ := h.serve_kept 2 hprepare
  unfold Schedule.spawn
  generalize s.serve 2 (e.prepare w payload options) = result,
    s'.serve 2 (e.prepare w payload options) = result' at hanswers hafter
  obtain ⟨a?, t⟩ := result
  obtain ⟨b?, t'⟩ := result'
  cases hanswers with
  | none => exact hafter
  | @some a b hab =>
    obtain ⟨rfl, hne⟩ := hab
    exact Alike.background_kept hafter ((Job.blind_drive e w a.1 a.2).kept hne)

/-- Every order is carried out alike. -/
theorem Alike.obey (hi : i = ids.id n) (order : Order) :
    (s.obey order).Alike (.kept i l ids n) (Run.Kept i l) (s'.obey order) := by
  cases order with
  | remove id =>
    have hremove : (stepLocked (·.removeRun id)).Alike (.kept i l ids n)
        (fun a b => a = b.map (.loggedIf i l id)) (stepLocked (·.removeRun id)) :=
      alike_store (fun t => by rw [World.removeRun_logged]; exact ⟨rfl, rfl⟩) (fun _ => rfl)
        fun _ => rfl
    exact (h.serve_kept 1 hremove).2
  | tell command =>
    cases command with
    | advance ms =>
      have hpause := h.serve_kept 1 (alike_pause (Eq.refl
        ({ due := .instant (s'.world.now + Time.slept ms) } : Wait)))
      have hnow : s.world.now = s'.world.now := by rw [h.world.1, World.logged]
      show (s.advance ms).Alike _ _ _
      unfold Schedule.advance
      rw [hnow]
      exact hpause.2
    | cancel id =>
      have hcancel : (stepLocked (·.cancelRun id)).Alike (.kept i l ids n) Eq
          (stepLocked (·.cancelRun id)) :=
        alike_store (fun t => by rw [World.cancelRun_logged]; exact ⟨rfl, rfl⟩) (fun _ => rfl)
          fun _ => rfl
      exact (h.serve_kept 1 hcancel).2
    | get id =>
      have hget : (readLocked fun w => w.store.get? id).Alike (.kept i l ids n)
          (fun a b => a = b.map (.loggedIf i l id)) (readLocked fun w => w.store.get? id) := by
        refine alike_readLocked (fun _ _ => alike_look) ?_
        rintro s t ⟨rfl, -⟩
        exact Store.get?_logged
      exact (h.serve_kept 1 hget).2
    | join id => exact (h.join id).2
    | execute e w payload options =>
      have hexecute : (e.execute w payload options).Alike (.kept i l ids n) Eq
          (e.execute w payload options) := by
        refine e.alike_setOff w payload options hi fun r token hne => ?_
        refine ((Job.blind_drive e w r token).kept hne).process.mono ?_
        exact fun a b hab => hab.trans (Run.loggedIf_ne hne)
      exact (h.serve_kept _ hexecute).2
    | spawn e w payload options => exact h.spawn hi e w payload options

end

theorem Alike.obeyAll (hi : i = ids.id n) (orders : List Order) : ∀ {s s' : Schedule},
    s.Alike (.kept i l ids n) (Run.Kept i l) s' →
      (s.obeyAll orders).Alike (.kept i l ids n) (Run.Kept i l) (s'.obeyAll orders) := by
  induction orders with
  | nil => exact fun h => h
  | cons order orders ih => exact fun h => ih (h.obey hi order)

end Schedule

/-! ## The run, with other settings -/

namespace Schedule

variable {s s' : Schedule}

theorem blind_obeyAll (orders : List Order) : ∀ {s : Schedule}, (∀ job ∈ s.jobs, job.Blind) →
    ∀ job ∈ (s.obeyAll orders).jobs, job.Blind := by
  induction orders with
  | nil => exact fun h => h
  | cons order orders ih =>
    exact fun h => ih (each_obey Job.Blind.turn Job.blind_drive h order)

section

variable (h : s.Tidy) (hblind : ∀ job ∈ s.jobs, job.Blind) (e : Engine) (w : Workflow)
  (payload : Value) (options : RunOptions) (l : Logging)

include h

/-- There are no log entries of the next run. -/
theorem Tidy.logged_nextRun : s.world.logged s.world.nextRun l = s.world := by
  refine World.logged_of_unknown ?_ ?_
  · rw [h.world.nextRun]
    exact h.world.ne_nextRun
  · rw [h.world.nextRun]
    exact h.world.isBehind_nextRun

include hblind

theorem Tidy.alike_nextRun : s.Alike (.kept s.world.nextRun l s.world.series s.world.runs)
    (Run.Kept s.world.nextRun l) s := by
  refine .of_jobs ⟨(h.logged_nextRun l).symm, rfl, Nat.le_refl _⟩ fun job hj => ?_
  refine (hblind job hj).kept ?_
  rw [h.world.nextRun]
  exact (h.jobs job hj).2.ne

/-- The next run is set off, with other settings of logs. -/
theorem Tidy.serve_setOff_alike {α β : Type} {results : α → β → Prop} (stops : Nat)
    (k : Run × Nat → Process World α) (k' : Run × Nat → Process World β)
    (hk : ∀ (r : Run) token, r.id = s.world.nextRun → r.nodes = [] →
      (k (r, token)).Alike (.kept s.world.nextRun l s.world.series s.world.runs) results
        (k' (r, token))) :
    let served := s.serve stops (e.prepare (w.withLogging l) payload options >>= k)
    let served' := s.serve stops (e.prepare (w.withLogging .full) payload options >>= k')
    Option.Rel results served.1 served'.1 ∧
      (s.world.runs < served'.2.world.runs →
        served.2.Alike (.kept s.world.nextRun l s.world.series (s.world.runs + 1))
          (Run.Kept s.world.nextRun l) served'.2) := by
  have hserved := (h.alike_nextRun hblind l).serve_kept stops
    (e.alike_enters (w.withLogging .full) payload options s.world.now s.world.nextRun hk)
  rw [← serve_setOff, ← serve_setOff] at hserved
  obtain ⟨hanswers, hafter⟩ := hserved
  refine ⟨hanswers, fun hruns => hafter.restrict ?_ ?_ ?_ ?_⟩
  · exact ⟨hafter.world.1, hafter.world.2.1, hruns⟩
  · exact fun s t hs => ⟨hs.1, hs.2.1, Nat.le_of_succ_le hs.2.2⟩
  · exact fun _ _ _ _ _ hstep => hstep
  · exact fun _ _ hwait => hwait

/-- **The same run in the background**, with other settings of logs. -/
theorem Tidy.spawn_alike :
    (s.spawn e (w.withLogging l) payload options).1 = some s.world.nextRun ∧
    (s.spawn e (w.withLogging .full) payload options).1 = some s.world.nextRun ∧
    (s.spawn e (w.withLogging l) payload options).2.Alike
      (.kept s.world.nextRun l s.world.series (s.world.runs + 1)) (Run.Kept s.world.nextRun l)
      (s.spawn e (w.withLogging .full) payload options).2 := by
  obtain ⟨run, token, t, hserve, hid, hnodes, -, hworld⟩ :=
    h.prepares e (w.withLogging .full) payload options
  have hserve' : s.serve 2 (e.prepare (w.withLogging l) payload options) =
      (some (run, token), t) := hserve
  have hset := h.serve_setOff_alike hblind e w payload options l 2 done done
    fun _ _ _ _ => alike_done (Eq.refl _)
  rw [bind_done, bind_done, hserve, hserve'] at hset
  have hafter := hset.2 (hworld.runs ▸ Nat.lt_succ_self _)
  unfold Schedule.spawn
  rw [hserve, hserve', ← hid]
  rw [← hid] at hafter
  refine ⟨rfl, rfl, hafter.background_kept ⟨rfl, rfl, rfl, ?_⟩⟩
  exact e.alike_drive_logs w token rfl hnodes

/-- **The same run, executed**, with other settings of logs. -/
theorem Tidy.execute_alike :
    (s.execute e (w.withLogging l) payload options).1 =
      (s.execute e (w.withLogging .full) payload options).1.map (.logged l) ∧
    (s.execute e (w.withLogging l) payload options).2.Alike
      (.kept s.world.nextRun l s.world.series (s.world.runs + 1)) (Run.Kept s.world.nextRun l)
      (s.execute e (w.withLogging .full) payload options).2 := by
  obtain ⟨-, hworld, -⟩ := h.setOff (fun _ => True)
    (.of_asked (.execute e (w.withLogging .full) payload options)) fun run token _ _ =>
      ⟨e.writes_drive (w.withLogging .full) run token, always_of_forall (fun _ => trivial) _⟩
  obtain ⟨hanswers, hafter⟩ := h.serve_setOff_alike hblind e w payload options l (Engine.stops w)
    (fun r => e.drive (w.withLogging l) r.1 r.2) (fun r => e.drive (w.withLogging .full) r.1 r.2)
    fun r token hid hnodes => e.alike_drive_logs w token hid hnodes
  exact ⟨Run.eq_of_rel hanswers, hafter (hworld.runs ▸ Nat.lt_succ_self _)⟩

end

/-! ## The main theorem -/

/-- Whatever is ordered, the one schedule leads to the same world as the other,
and whoever waits for a run gets the same, but for the log entries of `i` that
`l` does not keep. -/
structure LoggedAs (i : String) (l : Logging) (s s' : Schedule) : Prop where
  world : ∀ orders, (s.obeyAll orders).world = (s'.obeyAll orders).world.logged i l
  joined : ∀ orders id, ((s.obeyAll orders).join id).1 =
    ((s'.obeyAll orders).join id).1.map (.loggedIf i l id)

theorem Alike.loggedAs (hi : i = ids.id n) (h : s.Alike (.kept i l ids n) (Run.Kept i l) s') :
    s.LoggedAs i l s' where
  world orders := (h.obeyAll hi orders).world.1
  joined orders id := ((h.obeyAll hi orders).join id).1

/-- Different settings leave the same but for the logs. -/
theorem LoggedAs.off {l' : Logging} {t : Schedule} (h : s.LoggedAs i l t) (h' : s'.LoggedAs i l' t)
    (orders : List Order) :
    (s.obeyAll orders).world.logged i .off = (s'.obeyAll orders).world.logged i .off := by
  rw [h.world, h'.world, World.logged_off, World.logged_off]

end Schedule

end

/-- **Settings of logs change the logs and nothing else.** In a state to which
any orders have led, a run is set off that logs as `l` says, in the
background or to wait for its end. Whatever is ordered afterwards, the world
is the one to which the same orders lead if the run logs everything, but for
the entries that `l` does not keep in the logs of its records of nodes; and
its result is the same, up to those. So with any two settings all is the same
without these logs.

The world holds the time, the stored records with their contexts, the results
of runs in the background, and the services, whose journal has every call of a
collaborator. -/
theorem logging_filters_logs (now : Nat) (registry : Registry) (services : Services)
    (series : Series) (before : List Order) (e : Engine) (w : Workflow) (payload : Value)
    (options : RunOptions) : ∃ s i,
      s = Schedule.obeyAll { world := { now, registry, services, series } } before ∧
      i = s.world.nextRun ∧
      let spawned l := s.spawn e (w.withLogging l) payload options
      let executed l := s.execute e (w.withLogging l) payload options
      (∀ l, (spawned l).1 = some i ∧ (spawned l).2.LoggedAs i l (spawned .full).2) ∧
      (∀ l, (executed l).1 = (executed .full).1.map (.logged l) ∧
        (executed l).2.LoggedAs i l (executed .full).2) ∧
      ∀ l l' after,
        ((spawned l).2.obeyAll after).world.logged i .off =
          ((spawned l').2.obeyAll after).world.logged i .off ∧
        ((executed l).2.obeyAll after).world.logged i .off =
          ((executed l').2.obeyAll after).world.logged i .off := by
  have hempty : Schedule.Tidy { world := { now, registry, services, series } } := .of_empty rfl rfl
  have hs := hempty.obeyAll before
  have hblind : ∀ job ∈ (Schedule.obeyAll { world := { now, registry, services, series } }
      before).jobs, job.Blind :=
    Schedule.blind_obeyAll before fun job hj => by cases hj
  generalize Schedule.obeyAll _ before = s at hs hblind
  have hi := hs.world.nextRun
  have hspawned : ∀ l, (s.spawn e (w.withLogging l) payload options).2.LoggedAs s.world.nextRun l
      (s.spawn e (w.withLogging .full) payload options).2 := fun l =>
    (hs.spawn_alike hblind e w payload options l).2.2.loggedAs hi
  have hexecuted : ∀ l, (s.execute e (w.withLogging l) payload options).2.LoggedAs
      s.world.nextRun l (s.execute e (w.withLogging .full) payload options).2 := fun l =>
    (hs.execute_alike hblind e w payload options l).2.loggedAs hi
  refine ⟨s, _, rfl, rfl, fun l => ⟨?_, hspawned l⟩, fun l => ⟨?_, hexecuted l⟩, ?_⟩
  · exact (hs.spawn_alike hblind e w payload options l).1
  · exact (hs.execute_alike hblind e w payload options l).1
  · exact fun l l' after =>
      ⟨(hspawned l).off (hspawned l') after, (hexecuted l).off (hexecuted l') after⟩

end Automation
