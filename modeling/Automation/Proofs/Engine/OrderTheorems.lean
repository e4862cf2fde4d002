/-
Automation.Proofs.Engine.OrderTheorems — orders one after the other.

An engine can be told to do something (`Command`) or to forget a run. A run
that is forgotten while it is driven goes on; its driver hands records in as
before, so its id can become known again, under a new token. Nobody keeps
track of that, and `Crew` does not hold any more then. What is kept by every
order is less: a schedule stays `Tidy`. Its jobs are tame, and nobody is
served; ids, of jobs, of entries and of runs in the background, are those of
runs that were set off; and tokens were handed out, those of entries as well
as those that were fired. So the next run gets an id and a token that nobody
has used.

A run is set off under one id, which is read before anything else can happen
(`serve_setOff`), and is entered at one moment. What is done before this
moment is another matter than what is done after it (`Tidy.enters`).
-/
import Automation.Proofs.Engine.CommandTheorems

namespace Automation

open Process
open Automation.Json (Value)

/-- What can be asked of an engine. -/
inductive Order where
  | tell (command : Command)
  /-- Forget a run. -/
  | remove (id : String)

/-- What an order leaves. -/
def Schedule.obey (s : Schedule) : Order → Schedule
  | .tell command => s.perform command
  | .remove id => (s.remove id).2

/-- What orders leave that are carried out in turn. -/
def Schedule.obeyAll (s : Schedule) (orders : List Order) : Schedule :=
  orders.foldl obey s

/-! ## What is kept -/

/-- If this holds before, it holds after. -/
def World.Preserves (inv : World → Prop) (w w' : World) : Prop :=
  inv w → inv w'

/-- The id is one of the first so many of the series. -/
def Series.Issued (series : Series) (n : Nat) (id : String) : Prop :=
  ∃ m ≤ n, id = series.id m

section

variable {series : Series} {n : Nat} {id : String}

theorem Series.Issued.succ (h : series.Issued n id) : series.Issued (n + 1) id := by
  obtain ⟨m, hm, rfl⟩ := h
  exact ⟨m, Nat.le_succ_of_le hm, rfl⟩

theorem Series.issued_last : series.Issued n (series.id n) :=
  ⟨n, Nat.le_refl n, rfl⟩

/-- The next id is not among them. -/
theorem Series.Issued.ne (h : series.Issued n id) : id ≠ series.id (n + 1) := by
  obtain ⟨m, hm, rfl⟩ := h
  intro heq
  have := Series.id_inj.mp heq
  omega

end

namespace World

/-- So many runs of the series were set off; their ids were used, and no others,
and the tokens that were handed out. -/
structure Tidy (ids : Series) (n : Nat) (w : World) : Prop where
  series : w.series = ids
  runs : w.runs = n
  entries : ∀ e ∈ w.store.entries, ids.Issued n e.run.id ∧ e.token < w.store.tokens
  behind : ∀ id, w.isBehind id = true → ids.Issued n id
  fired : ∀ k, w.store.isFired k = true → k < w.store.tokens

namespace Tidy

variable {ids : Series} {n : Nat} {w w' : World} {id : String} {run : Run}

theorem nextRun (h : w.Tidy ids n) : w.nextRun = ids.id (n + 1) := by
  rw [World.nextRun, h.series, h.runs]

/-- The next id has not been used. -/
theorem ne_nextRun (h : w.Tidy ids n) : ∀ e ∈ w.store.entries, e.run.id ≠ ids.id (n + 1) :=
  fun e he => (h.entries e he).1.ne

theorem isBehind_nextRun (h : w.Tidy ids n) : w.isBehind (ids.id (n + 1)) = false := by
  rw [Bool.eq_false_iff]
  exact fun hbehind => (h.behind _ hbehind).ne rfl

/-- What is done on runs that were set off. -/
theorem passes (h : w.Tidy ids n) (hw : w.Passes (ids.Issued n) w') : w'.Tidy ids n where
  series := hw.series.trans h.series
  runs := hw.runs.trans h.runs
  entries e he := by
    rcases hw.origin e he with hold | ⟨hid, ⟨-, hlt⟩ | ⟨e₀, he₀, -, htoken⟩⟩
    · exact ⟨(h.entries e hold).1, Nat.lt_of_lt_of_le (h.entries e hold).2 hw.tokens⟩
    · exact ⟨hid, hlt⟩
    · exact ⟨hid, htoken ▸ Nat.lt_of_lt_of_le (h.entries e₀ he₀).2 hw.tokens⟩
  behind id hid := h.behind id ((hw.isBehind id).symm.trans hid)
  fired k hk := Nat.lt_of_lt_of_le (h.fired k ((hw.isFired k).symm.trans hk)) hw.tokens

/-- The next run is entered. -/
theorem addRun (h : w.Tidy ids n) (hid : run.id = ids.id (n + 1)) :
    (w.addRun run).2.Tidy ids (n + 1) where
  series := h.series
  runs := congrArg Nat.succ h.runs
  entries e he := by
    rcases Store.mem_place he with rfl | hold
    · exact ⟨hid ▸ Series.issued_last, Nat.lt_succ_self _⟩
    · exact ⟨(h.entries e hold).1.succ, Nat.lt_succ_of_lt (h.entries e hold).2⟩
  behind id hbehind := (h.behind id hbehind).succ
  fired k hk := Nat.lt_succ_of_lt (h.fired k hk)

theorem cancelRun (h : w.Tidy ids n) (id : String) : (w.cancelRun id).2.Tidy ids n := by
  cases hcancel : (w.cancelRun id).1 with
  | false => rwa [World.cancelRun_of_false hcancel]
  | true =>
    obtain ⟨r, hr, hlive⟩ := Store.cancel_fst.mp hcancel
    obtain ⟨e, he, rfl⟩ := Store.exists_entry? hr
    have hmem := h.entries e (List.mem_of_find?_eq_some he)
    have htokens : (w.cancelRun id).2.store.tokens = w.store.tokens :=
      Store.cancel_tokens w.store id w.now
    have hstore : (w.cancelRun id).2.store = (w.store.cancel id w.now).2 := rfl
    rw [Store.cancel_of_live he hlive] at hstore
    refine ⟨h.series, h.runs, fun e' he' => ?_, h.behind, fun k hk => ?_⟩
    · rw [htokens]
      rw [hstore] at he'
      rcases Store.mem_place he' with rfl | hold
      · exact hmem
      · exact h.entries e' hold
    · rw [htokens]
      rw [hstore] at hk
      simp only [Store.isFired, List.contains_cons, Bool.or_eq_true, beq_iff_eq] at hk
      rcases hk with rfl | hk
      · exact hmem.2
      · exact h.fired k hk

theorem removeRun (h : w.Tidy ids n) (id : String) : (w.removeRun id).2.Tidy ids n := by
  have hstore : (w.removeRun id).2.store = (w.store.remove id).2 := rfl
  refine ⟨h.series, h.runs, fun e he => ?_, h.behind, fun k hk => ?_⟩
  · rw [hstore, Store.remove_tokens]
    rw [hstore] at he
    exact h.entries e (Store.mem_remove he)
  · rw [hstore, Store.remove_tokens]
    refine h.fired k ?_
    rwa [hstore, Store.isFired, Store.remove_fired] at hk

theorem fetchRun (h : w.Tidy ids n) (id : String) : (w.fetchRun id).2.Tidy ids n := by
  refine ⟨h.series, h.runs, h.entries, fun id' hid' => h.behind id' ?_, h.fired⟩
  rw [World.isBehind_eq] at hid' ⊢
  by_cases heq : id' = id
  · rw [heq, World.lookup_fetchRun] at hid'
    cases hid'
  · rwa [World.lookup_fetchRun_ne heq] at hid'

theorem leaveRun (h : w.Tidy ids n) (hid : ids.Issued n id) :
    (w.leaveRun id).Tidy ids n := by
  refine ⟨h.series, h.runs, h.entries, fun id' hid' => ?_, h.fired⟩
  by_cases heq : id' = id
  · exact heq ▸ hid
  · refine h.behind id' ?_
    rw [World.isBehind_eq] at hid' ⊢
    rwa [World.lookup_leaveRun_ne heq] at hid'

end Tidy

end World

/-! ## Setting a run off -/

/-- The record of a run that is set off at a time, under an id. -/
def Engine.first (e : Engine) (w : Workflow) (payload : Value) (options : RunOptions) (now : Nat)
    (id : String) : Run :=
  .start w id payload
    (.seed w payload options.overrides e.config.environment (.reading now)) options.source now

/-- What is done with a run that was entered: it has failed if its workflow is
not valid. -/
def Workflow.check (w : Workflow) (run : Run) (now token : Nat) : Process World (Run × Nat) :=
  if w.isValid then done (run, token)
  else Driver.save (run.fail ("Workflow validation failed: " ++ w.summary) now) >>=
    fun run => done (run, token)

/-- A run is entered, and then whatever is to be done with it. -/
def Engine.enters {α : Type} (e : Engine) (w : Workflow) (payload : Value) (options : RunOptions)
    (now : Nat) (id : String) (k : Run × Nat → Process World α) : Process World α :=
  .locked (fun s => (s.addRun (e.first w payload options now id)).2) fun s =>
    w.check (e.first w payload options now id) now
      (s.addRun (e.first w payload options now id)).1 >>= k

/-- Setting a run off begins with looking at the time, and for an id. -/
theorem Engine.prepare_bind {α : Type} (e : Engine) (w : Workflow) (payload : Value)
    (options : RunOptions) (k : Run × Nat → Process World α) :
    e.prepare w payload options >>= k = Driver.clock >>= fun now =>
      .read (·.nextRun) >>= fun id => e.enters w payload options now id k := by
  unfold Engine.prepare Engine.enters Workflow.check
  cases w.isValid <;> rfl

namespace Schedule

section

variable {α : Type} {s t : Schedule} {p q : Process World α}

/-! ## Requests that begin with a change -/

/-- What a request does before it has to give way is done at once. -/
theorem serve_act (s : Schedule) (stops : Nat) (change : World → World)
    (next : World → Process World α) :
    s.serve stops (.act change next) =
      serve { s with world := change s.world } stops (next s.world) := by
  have hturn : s.turn (.act change next) =
      turn { s with world := change s.world } (next s.world) := rfl
  have hbound : bound { s with world := change s.world } = s.bound := rfl
  obtain ⟨fuel, hfuel⟩ : ∃ fuel, 3 * (stops + 1) + s.bound = fuel + 1 :=
    ⟨3 * stops + 2 + s.bound, by omega⟩
  have hcan : ∀ (s : Schedule) (p : Process World α), s.canGoOn (.yields p false) = true :=
    fun _ _ => rfl
  unfold serve
  rw [hbound, hfuel]
  unfold attend
  rw [if_pos (hcan _ _), if_pos (hcan _ _)]
  dsimp only [Outcome.rest]
  rw [hturn]

theorem serve_read_bind {β : Type} (s : Schedule) (stops : Nat) (f : World → β)
    (k : β → Process World α) : s.serve stops (read f >>= k) = s.serve stops (k (f s.world)) :=
  s.serve_act stops id fun w => k (f w)

/-- What comes of a change under the lock: it has been made at some moment,
and what comes then is another matter than what came before. -/
structure Entered (o r : World → World → Prop) (change : World → World) (w₀ w w' : World) :
    Prop where
  before : o w₀ w
  after : r (change w) w'

/-- What is left of a request that begins with such a change: all of it, or
what is done after the change. -/
def Enters (o r : World → World → Prop) (post : World → α → Prop) (change : World → World)
    (next : World → Process World α) (w₀ : World) (q : Process World α) (w' : World) : Prop :=
  q = .locked change next ∧ o w₀ w' ∨
    ∃ w, Entered o r change w₀ w w' ∧ q.Does r ∧ q.Always (post w)

section

variable {o r : World → World → Prop} {post : World → α → Prop} {change : World → World}
  {next : World → Process World α} (ho : s.Does o) (hr : s.Does r)
  (hnext : ∀ w, (next w).Does r) (hpost : ∀ w, (next w).Always (post w))

include hr hnext hpost

/-- The request takes a turn. -/
theorem Enters.turn {w₀ w : World} (h : Enters o r post change next w₀ q w) (left : Nat)
    (access : Access) :
    Enters o r post change next w₀ (q.turn World.signals left access w).outcome.rest
      (q.turn World.signals left access w).state := by
  rcases h with ⟨rfl, hbefore⟩ | ⟨w₁, ⟨hbefore, hafter⟩, hdoes, halways⟩
  · rcases turn_locked World.signals change next left access w with
      ⟨hrest, hstate⟩ | ⟨left', access', hturn⟩
    · rw [hrest, hstate]
      exact Or.inl ⟨rfl, hbefore⟩
    · obtain ⟨hgoes, hdoes⟩ := hr.turn (hnext w) left' access' (change w)
      rw [hturn]
      exact Or.inr ⟨w, ⟨hbefore, hgoes⟩, hdoes, (hpost w).turn World.signals _ _ _⟩
  · obtain ⟨hgoes, hdoes'⟩ := hr.turn hdoes left access w
    have halways' := halways.turn World.signals left access w
    exact Or.inr ⟨w₁, ⟨hbefore, hr.trans _ _ _ hafter hgoes⟩, hdoes', halways'⟩

include ho

/-- The change is made in one of the turns of the request. -/
theorem Serves.enters (h : Serves s (.locked change next) q t) :
    Enters o r post change next s.world q t.world := by
  induction h with
  | start => exact Or.inl ⟨rfl, ho.refl _⟩
  | @request q t _ _ ih =>
    rw [turn_world, turn_fst]
    exact ih.turn hr hnext hpost _ _
  | job hserves hready ih =>
    rcases ih with ⟨hq, hbefore⟩ | ⟨w, ⟨hbefore, hafter⟩, hq⟩
    · exact Or.inl ⟨hq, ho.trans _ _ _ hbefore (ho.take hserves hready)⟩
    · exact Or.inr ⟨w, ⟨hbefore, hr.trans _ _ _ hafter (hr.take hserves hready)⟩, hq⟩
  | round _ ih => exact ih
  | @clock q t now _ ih =>
    rcases ih with ⟨hq, hbefore⟩ | ⟨w, ⟨hbefore, hafter⟩, hq⟩
    · exact Or.inl ⟨hq, ho.trans _ _ _ hbefore (ho.clock t.world now)⟩
    · exact Or.inr ⟨w, ⟨hbefore, hr.trans _ _ _ hafter (hr.clock t.world now)⟩, hq⟩

/-- **A change under the lock is made**: the request does not stand in line for
ever. -/
theorem Comes.enters {result : Option α × Schedule} (h : Comes s (.locked change next) result) :
    ∃ w, Entered o r change s.world w result.2.world ∧
      ∀ a, result.1 = some a → post w a := by
  obtain ⟨a?, t⟩ := result
  cases a? with
  | none =>
    obtain ⟨q, hserves, -, hstuck⟩ := h
    rcases hserves.enters ho hr hnext hpost with ⟨rfl, -⟩ | ⟨w, hentered, -⟩
    · exact absurd hstuck.waits Bool.false_ne_true
    · exact ⟨w, hentered, fun a ha => by cases ha⟩
  | some a =>
    obtain ⟨⟨q, u, hserves, hturn⟩, -⟩ := h
    have hlast := (hserves.enters ho hr hnext hpost).turn hr hnext hpost u.left (u.access u.locks)
    rw [← turn_fst, ← turn_world, hturn] at hlast
    rcases hlast with ⟨hdone, -⟩ | ⟨w, hentered, -, halways⟩
    · cases hdone
    · refine ⟨w, hentered, ?_⟩
      rintro _ ⟨⟩
      exact halways

end

end

end Schedule

section

variable {e : Engine} {w : Workflow} {payload : Value} {options : RunOptions}

/-- A check hands a record in that has no nodes, if anything. -/
theorem Workflow.does_check {ok : World → World → Prop} (w : Workflow) {run : Run}
    (hsave : ∀ s (r : Run), r.id = run.id → r.nodes = run.nodes → ok s (s.saveRun r).2)
    (now token : Nat) : (w.check run now token).Does ok := by
  unfold check
  split
  · trivial
  · exact fun s => ⟨hsave s _ rfl rfl, trivial⟩

theorem Workflow.always_check (w : Workflow) {run : Run} (now token : Nat) :
    (w.check run now token).Always fun r =>
      r.2 = token ∧ r.1.id = run.id ∧ r.1.nodes = run.nodes := by
  unfold check
  split
  · exact ⟨rfl, rfl, rfl⟩
  · exact fun s => ⟨rfl, Store.save_id s.store _, Store.save_nodes s.store _⟩

namespace Schedule

variable {s : Schedule}

/-- **A run is set off under one id.** -/
theorem serve_setOff {α : Type} (s : Schedule) (stops : Nat) (e : Engine) (w : Workflow)
    (payload : Value) (options : RunOptions) (k : Run × Nat → Process World α) :
    s.serve stops (e.prepare w payload options >>= k) =
      s.serve stops (e.enters w payload options s.world.now s.world.nextRun k) := by
  rw [e.prepare_bind]
  refine (s.serve_read_bind stops _ _).trans ?_
  exact s.serve_read_bind stops _ _

/-! ## Orders -/

/-- What is asked of a request: no time passes by what it does, and it comes to
so many stops at most. -/
structure Servable {α : Type} (p : Process World α) (n : Nat) : Prop where
  does : p.Does World.Bides
  within : p.Within (fun _ => True) n

theorem Servable.of_asked {α : Type} {p : Process World α} {n : Nat} (h : Asked p n) :
    Servable p n :=
  ⟨h.does.mono fun _ _ hsteps => hsteps.toBides, h.within⟩

theorem Servable.enters {α : Type} {k : Run × Nat → Process World α} {n : Nat}
    (h : Servable (e.prepare w payload options >>= k) n) (s : World) :
    Servable (e.enters w payload options s.now s.nextRun k) n := by
  rw [e.prepare_bind] at h
  exact ⟨((h.does s).2 s).2, h.within s s⟩

/-- Every order finds the schedule like this. -/
structure Tidy (s : Schedule) : Prop where
  world : s.world.Tidy s.world.series s.world.runs
  jobs : ∀ job ∈ s.jobs, job.Tame ∧ s.world.series.Issued s.world.runs job.id
  idle : s.Idle

/-- Before anything was asked. -/
theorem Tidy.of_empty {w : World} (hstore : w.store = {}) (hbackground : w.background = []) :
    Tidy { world := w } := by
  refine ⟨⟨rfl, rfl, ?_, ?_, ?_⟩, ?_, (Sound.of_empty hstore hbackground).idle⟩
  · simp [hstore]
  · simp [World.isBehind, hbackground]
  · simp [hstore, Store.isFired]
  · exact fun job hj => by cases hj

theorem Tidy.tame (h : s.Tidy) : ∀ job ∈ s.jobs, job.Tame :=
  fun job hj => (h.jobs job hj).1

theorem Tidy.comes {α : Type} (h : s.Tidy) {p : Process World α} {n : Nat} (hp : Servable p n) :
    Comes s p (s.serve n p) :=
  serve_spec ⟨h.tame, hp.does, n, hp.within⟩ h.idle hp.within

theorem Comes.idle {α : Type} {p : Process World α} {result : Option α × Schedule}
    (h : Comes s p result) : result.2.Idle := by
  obtain ⟨_ | a, t⟩ := result
  · obtain ⟨q, -, hidle, -⟩ := h
    exact hidle
  · exact h.2

theorem join_eq (s : Schedule) (id : String) :
    let served := s.serve 1 (.pause { due := .run id } >>= fun _ => .step (·.fetchRun id))
    s.join id = if s.world.isBehind id then (served.1.join, served.2) else (none, s) := by
  dsimp only
  unfold Schedule.join
  split
  · generalize s.serve 1 _ = result
    obtain ⟨_ | run, t⟩ := result <;> rfl
  · rfl

/-- What jobs do that are tame, on runs of theirs. -/
theorem does_passes {P : String → Prop} (h : ∀ job ∈ s.jobs, job.Tame ∧ P job.id) :
    s.Does (World.Passes P) where
  refl _ := .rfl
  trans _ _ _ := .trans
  clock := .setNow
  jobs job hj := (h job hj).1.passes (h job hj).2

/-- What jobs do that keep something. -/
theorem Does.preserves {P : String → Prop} {inv : World → Prop} (h : s.Does (World.Passes P))
    (hinv : ∀ w w', w.Passes P w' → inv w → inv w') : s.Does (World.Preserves inv) where
  refl _ := id
  trans _ _ _ h h' hw := h' (h hw)
  clock w now := hinv _ _ (h.clock w now)
  jobs job hj :=
    ⟨(h.jobs job hj).process.mono hinv, fun w run => hinv _ _ ((h.jobs job hj).ends w run)⟩

/-- Jobs keep the world tidy. -/
theorem Tidy.preserves (h : s.Tidy) {n : Nat} (hn : s.world.runs ≤ n) :
    s.Does (World.Preserves (World.Tidy s.world.series n)) := by
  refine (does_passes (P := s.world.series.Issued n) fun job hj => ?_).preserves
    fun _ _ hpasses hw => hw.passes hpasses
  obtain ⟨htame, m, hm, hid⟩ := h.jobs job hj
  exact ⟨htame, m, Nat.le_trans hm hn, hid⟩

/-- Serving a request leaves the jobs tidy, if it does the world. -/
theorem Tidy.of_served {α : Type} (h : s.Tidy) {stops n : Nat} {p : Process World α}
    (hp : Servable p stops) (hn : s.world.runs ≤ n)
    (hworld : (s.serve stops p).2.world.Tidy s.world.series n) : (s.serve stops p).2.Tidy := by
  refine ⟨?_, ?_, (h.comes hp).idle⟩
  · rw [hworld.series, hworld.runs]
    exact hworld
  · rw [hworld.series, hworld.runs]
    refine each_serve (C := fun job => job.Tame ∧ s.world.series.Issued n job.id) ?_ stops p ?_
    · exact fun job access w hjob => ⟨tame_turn job access w hjob.1, hjob.2⟩
    · intro job hj
      obtain ⟨htame, m, hm, hid⟩ := h.jobs job hj
      exact ⟨htame, m, Nat.le_trans hm hn, hid⟩

/-- A request that sets no run off. -/
theorem Tidy.serve {α : Type} (h : s.Tidy) {stops : Nat} {p : Process World α}
    (hp : Servable p stops)
    (hdoes : p.Does (World.Preserves (World.Tidy s.world.series s.world.runs))) :
    (s.serve stops p).2.Tidy :=
  h.of_served hp (Nat.le_refl _) (relates_serve (h.preserves (Nat.le_refl _)) stops hdoes h.world)

/-- **A request that sets a run off enters the run**; what is done before this is
`o`, and what is done after it is `r`. -/
theorem Tidy.enters {α : Type} (h : s.Tidy) (post : Nat → α → Prop) {o r : World → World → Prop}
    {stops : Nat} {k : Run × Nat → Process World α}
    (hp : Servable (e.prepare w payload options >>= k) stops) (ho : s.Does o) (hr : s.Does r)
    (hsave : ∀ w (run : Run), run.id = s.world.nextRun → run.nodes = [] → r w (w.saveRun run).2)
    (hk : ∀ run token, run.id = s.world.nextRun → run.nodes = [] →
      (k (run, token)).Does r ∧ (k (run, token)).Always (post token)) :
    let served := s.serve stops (e.prepare w payload options >>= k)
    ∃ w', Entered o r
        (fun s' => (s'.addRun (e.first w payload options s.world.now s.world.nextRun)).2) s.world w'
        served.2.world ∧
      ∀ a, served.1 = some a → post w'.store.tokens a := by
  rw [serve_setOff]
  refine (h.comes (hp.enters s.world)).enters ho hr (fun s' => ?_) fun s' => ?_
  · refine Process.Does.bind ?_ (w.does_check hsave _ _) (w.always_check _ _)
    rintro ⟨run, token⟩ ⟨-, hid, hnodes⟩
    exact (hk run token hid hnodes).1
  · refine Always.bind ?_ (w.always_check _ _)
    rintro ⟨run, token⟩ ⟨rfl, hid, hnodes⟩
    exact (hk run _ hid hnodes).2

/-- What is done with the next run, once it was entered, keeps the world tidy. -/
theorem Tidy.writes {w w' : World} (hw : World.Writes s.world.nextRun w w') :
    World.Preserves (World.Tidy s.world.series (s.world.runs + 1)) w w' := by
  refine fun htidy => htidy.passes (hw.toPasses.mono ?_)
  rintro _ rfl
  exact Series.issued_last

/-- Setting a run off leaves the schedule tidy, whatever is done with the run
afterwards. -/
theorem Tidy.setOff {α : Type} (h : s.Tidy) (post : α → Prop) {stops : Nat}
    {k : Run × Nat → Process World α} (hp : Servable (e.prepare w payload options >>= k) stops)
    (hk : ∀ run token, run.id = s.world.nextRun → run.nodes = [] →
      (k (run, token)).Does (World.Writes run.id) ∧ (k (run, token)).Always post) :
    let served := s.serve stops (e.prepare w payload options >>= k)
    served.2.Tidy ∧ served.2.world.Tidy s.world.series (s.world.runs + 1) ∧
      ∀ a, served.1 = some a → post a := by
  intro served
  obtain ⟨w', ⟨hbefore, hafter⟩, hpost⟩ := h.enters (fun _ => post) hp
    (h.preserves (Nat.le_refl _)) (h.preserves (Nat.le_succ _))
    (fun w run hid _ => Tidy.writes ⟨.saveRun (P := (· = s.world.nextRun)) hid w, rfl, rfl⟩)
    fun run token hid hnodes =>
      ⟨(hk run token hid hnodes).1.mono fun _ _ hw => Tidy.writes (hid ▸ hw),
        (hk run token hid hnodes).2⟩
  have htidy := hafter ((hbefore h.world).addRun rfl)
  exact ⟨h.of_served hp (Nat.le_succ _) htidy, htidy, hpost⟩

/-- **Setting a run off is answered**, under the next id. -/
theorem Tidy.prepares (h : s.Tidy) (e : Engine) (w : Workflow) (payload : Value)
    (options : RunOptions) : ∃ run token t,
      s.serve 2 (e.prepare w payload options) = (some (run, token), t) ∧
      run.id = s.world.nextRun ∧ run.nodes = [] ∧ t.Tidy ∧
      t.world.Tidy s.world.series (s.world.runs + 1) := by
  have hp : Servable (e.prepare w payload options) 2 := .of_asked (.prepare e w payload options)
  have hcomes := h.comes hp
  rw [← bind_done (e.prepare w payload options)] at hp
  have hset := h.setOff (fun r => r.1.id = s.world.nextRun ∧ r.1.nodes = []) hp
    fun run token hid hnodes => ⟨trivial, hid, hnodes⟩
  rw [bind_done] at hset
  generalize s.serve 2 (e.prepare w payload options) = result at hcomes hset
  obtain ⟨_ | ⟨run, token⟩, t⟩ := result
  · -- setting a run off comes to no wait
    obtain ⟨q, hserves, -, hstuck⟩ := hcomes
    obtain ⟨wait, hwait⟩ := Option.isSome_iff_exists.mp hstuck.waits
    have hwaits : (e.prepare w payload options).Within (fun _ => False) 2 :=
      e.within_prepare w payload options
    exact ((hserves.within hwaits).wait hwait).elim
  · obtain ⟨htidy, hworld, hpost⟩ := hset
    obtain ⟨hid, hnodes⟩ := hpost _ rfl
    exact ⟨run, token, t, rfl, hid, hnodes, htidy, hworld⟩

/-- A run that was set off is put into the background. -/
theorem Tidy.background (h : s.Tidy) (e : Engine) (w : Workflow) {run : Run} (token : Nat)
    (hid : s.world.series.Issued s.world.runs run.id) : (s.background e w run token).Tidy := by
  refine ⟨h.world.leaveRun hid, fun job hj => ?_, h.idle.background h.tame e w run token⟩
  rw [jobs_background] at hj
  rcases Multiset.mem_cons.mp hj with rfl | hj
  · exact ⟨Job.tame_drive e w run token, hid⟩
  · exact h.jobs job hj

theorem Tidy.spawn (h : s.Tidy) (e : Engine) (w : Workflow) (payload : Value)
    (options : RunOptions) : (s.spawn e w payload options).2.Tidy := by
  obtain ⟨run, token, t, hserve, hid, -, htidy, hworld⟩ := h.prepares e w payload options
  unfold Schedule.spawn
  rw [hserve]
  refine htidy.background e w token ?_
  rw [hworld.series, hworld.runs, hid]
  exact Series.issued_last

/-- **Every order leaves the schedule tidy.** -/
theorem Tidy.obey (h : s.Tidy) (order : Order) : (s.obey order).Tidy := by
  cases order with
  | remove id =>
    refine h.serve (p := .stepLocked (·.removeRun id))
      ⟨fun s' => ⟨⟨rfl, ?_⟩, trivial⟩, fun _ => trivial⟩ fun s' => ⟨fun hw => hw.removeRun id, trivial⟩
    exact .of_fired (s'.store.remove_fired id)
  | tell command =>
    cases command with
    | advance ms => exact h.serve (.of_asked (.pass _)) fun _ => trivial
    | cancel id =>
      exact h.serve (.of_asked (.cancel id)) fun s' => ⟨fun hw => hw.cancelRun id, trivial⟩
    | get id =>
      exact h.serve (.of_asked (.inspect fun store => store.get? id)) fun s' =>
        ⟨fun hw => hw, trivial⟩
    | spawn e w payload options => exact h.spawn e w payload options
    | execute e w payload options =>
      refine (h.setOff (fun _ => True) (.of_asked (.execute e w payload options)) ?_).1
      exact fun run token _ _ => ⟨e.writes_drive w run token, always_of_forall (fun _ => trivial) _⟩
    | join id =>
      have hserve := h.serve (.of_asked (.join id)) fun _ s' => ⟨fun hw => hw.fetchRun id, trivial⟩
      show (s.join id).2.Tidy
      rw [join_eq]
      split
      · exact hserve
      · exact h

/-- What holds of every driver, and goes on to hold turn by turn, holds of each
job after every order. -/
theorem each_obey {C : Job → Prop}
    (hturn : ∀ (job : Job) access w, C job → C { job with
      process := (job.process.turn World.signals Process.share access w).outcome.rest
      locks := false })
    (hdrive : ∀ (e : Engine) w (run : Run) token,
      C ⟨run.id, e.drive w run token, Engine.stops w, false⟩)
    (hs : ∀ job ∈ s.jobs, C job) (order : Order) : ∀ job ∈ (s.obey order).jobs, C job := by
  have hserve : ∀ {α : Type} (stops : Nat) (p : Process World α),
      ∀ job ∈ (s.serve stops p).2.jobs, C job := fun stops p => each_serve hturn stops p hs
  cases order with
  | remove id => exact hserve 1 _
  | tell command =>
    cases command with
    | advance ms => exact hserve 1 _
    | cancel id => exact hserve 1 _
    | get id => exact hserve 1 _
    | execute e w payload options => exact hserve _ _
    | spawn e w payload options =>
      have hserved := hserve 2 (e.prepare w payload options)
      show ∀ job ∈ (s.spawn e w payload options).2.jobs, C job
      unfold Schedule.spawn
      generalize s.serve 2 (e.prepare w payload options) = result at hserved
      obtain ⟨_ | ⟨run, token⟩, t⟩ := result
      · exact hserved
      · intro job hj
        rw [jobs_background] at hj
        rcases Multiset.mem_cons.mp hj with rfl | hj
        · exact hdrive e w run token
        · exact hserved job hj
    | join id =>
      have hserved := hserve 1 (.pause { due := .run id } >>= fun _ => .step (·.fetchRun id))
      show ∀ job ∈ (s.join id).2.jobs, C job
      rw [join_eq]
      split
      · exact hserved
      · exact hs

theorem Tidy.obeyAll (orders : List Order) : ∀ {s : Schedule}, s.Tidy → (s.obeyAll orders).Tidy := by
  induction orders with
  | nil => exact id
  | cons order orders ih => exact fun h => ih (h.obey order)

end Schedule

end

end Automation
