/-
Automation.Proofs.Engine.CancelTheorems — cancelling a run.

A request to cancel takes effect at one moment, when it has the lock
(`Schedule.CancelsAt`). It succeeds if the run is known then and has not
ended, and from then on everything keeps to the cancellation
(`Schedule.Honours`), whatever is done afterwards: the stored record stays
cancelled with its dates, the driver calls no collaborator any more, and
whoever waits for the run gets it cancelled.

What becomes of a node that was in hand depends on where the driver was at
that moment. At a wait, the node is given up. At the lock, it is too late:
the driver has come past its last look at the token, and the node is handed
in as it has ended (`completed_after_cancel`).
-/
import Automation.Proofs.Engine.CommandTheorems

namespace Automation

open Process
open Automation.Json (Value)

namespace Schedule

variable {s t : Schedule} {id : String} {c : Cancellation} {notes : String → Option Cancellation}

/-! ## Requests with one stop -/

/-- Until it ends, a request with one stop leaves everything to the others. -/
theorem Serves.of_one {α : Type} {p q : Process World α} {ok : Wait → Prop} (ha : s.Asks p)
    (hp : p.Within ok 1) (hstop : p.AtStop) (h : Serves s p q t) :
    q = p ∧ s.world.Passes (fun _ => True) t.world := by
  induction h with
  | start => exact ⟨rfl, .rfl⟩
  | @request q t _ hgoes ih =>
    obtain ⟨rfl, hpasses⟩ := ih
    rw [turn_world, turn_fst] at *
    rcases hp.turn_of_one World.signals t.left (t.access t.locks) t.world hstop with ⟨a, h⟩ | ⟨h, h'⟩
    · exact absurd h (hgoes a)
    · exact ⟨h, h'.symm ▸ hpasses⟩
  | @job q t job ready hserves hready ih =>
    have htame : job.Tame := tame_of_mem (ha.tame_serves hserves) (by simp [hready])
    exact ⟨ih.1, ih.2.trans (passes_take (s := { t with ready }) htame)⟩
  | round _ ih => exact ih
  | clock now _ ih => exact ⟨ih.1, ih.2.trans (.setNow _ now)⟩

/-- How a request comes out that has one stop. -/
theorem Comes.of_one {α : Type} {p : Process World α} {ok : Wait → Prop} {result : Option α × Schedule}
    (h : Comes s p result) (ha : s.Asks p) (hp : p.Within ok 1) (hstop : p.AtStop) :
    (∃ a t, result.1 = some a ∧ Serves s p p t ∧ t.turn p = (.ended a, result.2)) ∨
    result.1 = none ∧ Serves s p p result.2 ∧ result.2.Idle ∧ result.2.Stuck p := by
  obtain ⟨_ | a, t'⟩ := result
  · obtain ⟨q, hserves, hidle, hstuck⟩ := h
    obtain ⟨rfl, -⟩ := hserves.of_one ha hp hstop
    exact Or.inr ⟨rfl, hserves, hidle, hstuck⟩
  · obtain ⟨⟨q, t, hserves, hturn⟩, -⟩ := h
    obtain ⟨rfl, -⟩ := hserves.of_one ha hp hstop
    exact Or.inl ⟨a, t, rfl, hserves, hturn⟩

/-! ## The moment -/

/-- A request to cancel: `t` is the moment at which it takes effect, and
`cancelled` the answer. -/
structure CancelsAt (s : Schedule) (id : String) (t : Schedule) (cancelled : Bool) (s' : Schedule) :
    Prop where
  serves : Serves s (.stepLocked (·.cancelRun id)) (.stepLocked (·.cancelRun id)) t
  answer : (t.world.cancelRun id).1 = cancelled
  world : s'.world = (t.world.cancelRun id).2
  jobs : s'.jobs = t.jobs

/-- A step under the lock that has come to its end has been taken. -/
theorem turn_stepLocked {α : Type} {f : World → α × World} {a : α} {s' : Schedule}
    (h : s.turn (.stepLocked f) = (.ended a, s')) :
    (f s.world).1 = a ∧ s'.world = (f s.world).2 ∧ s'.jobs = s.jobs := by
  have hstep : ∀ access, ((stepLocked f).turn World.signals s.left access s.world).outcome =
      .ended a → (f s.world).1 = a ∧
        ((stepLocked f).turn World.signals s.left access s.world).state = (f s.world).2 := by
    intro access hended
    unfold stepLocked Process.turn at hended ⊢
    cases access with
    | taken => cases hended
    | own wanted => exact ⟨Outcome.ended.inj hended, rfl⟩
    | free =>
      dsimp only at hended ⊢
      split at hended
      · cases hended
      · next hleft =>
        rw [if_neg hleft]
        exact ⟨Outcome.ended.inj hended, rfl⟩
  obtain ⟨hended, hworld, hjobs⟩ := turn_eq h
  obtain ⟨ha, hstate⟩ := hstep _ hended
  exact ⟨ha, hworld.symm.trans hstate, hjobs⟩

/-- Nobody has the lock, and something is left of the share. -/
def Unhindered (s : Schedule) : Prop :=
  s.access false = .free ∧ s.left ≠ 0

/-- An unhindered step under the lock is taken at once. -/
theorem serve_stepLocked {α : Type} (h : s.Idle) (hfree : s.Unhindered) (stops : Nat)
    (f : World → α × World) :
    s.serve stops (.stepLocked f) = (some (f s.world).1, (s.turn (.stepLocked f)).2) ∧
      s.turn (.stepLocked f) = (.ended (f s.world).1, (s.turn (.stepLocked f)).2) := by
  have hlocks : s.locks = false := h.going.claims.1
  have hturn : (s.turn (.stepLocked f)).1 = .ended (f s.world).1 := by
    rw [turn_fst, hlocks, hfree.1]
    unfold stepLocked Process.turn
    rw [if_neg (by simpa using hfree.2)]
    rfl
  have hpair : s.turn (.stepLocked f) = (.ended (f s.world).1, (s.turn (.stepLocked f)).2) :=
    Prod.ext hturn rfl
  obtain ⟨fuel, hfuel⟩ : ∃ fuel, 3 * (stops + 1) + s.bound = fuel + 1 :=
    ⟨3 * stops + 2 + s.bound, by omega⟩
  refine ⟨?_, hpair⟩
  have hcan : s.canGoOn (.yields (stepLocked f) false) = true := rfl
  rw [serve, hfuel, attend, if_pos hcan, Outcome.rest]
  generalize s.turn (.stepLocked f) = turn at hpair
  rw [hpair]

/-- **Cancelling is answered**, and takes effect at one moment: at once, if
nobody has the lock. -/
theorem Sound.cancelsAt (h : s.Sound) (id : String) : ∃ t cancelled s',
    s.cancel id = (some cancelled, s') ∧ s.CancelsAt id t cancelled s' ∧
      (s.Unhindered → t = s) := by
  by_cases hfree : s.Unhindered
  · obtain ⟨hserve, hturn⟩ := serve_stepLocked h.idle hfree 1 (·.cancelRun id)
    obtain ⟨hanswer, hworld, hjobs⟩ := turn_stepLocked hturn
    exact ⟨s, _, _, hserve, ⟨.start, hanswer, hworld, hjobs⟩, fun _ => rfl⟩
  · obtain ⟨hcomes, -⟩ := h.serve (.cancel id)
    have hone := hcomes.of_one (h.asks (.cancel id)) (Asked.cancel id).within trivial
    rcases hone with ⟨cancelled, t, hsome, hserves, hturn⟩ | ⟨-, -, -, hstuck⟩
    · obtain ⟨hanswer, hworld, hjobs⟩ := turn_stepLocked hturn
      exact ⟨t, cancelled, _, Prod.ext hsome rfl, ⟨hserves, hanswer, hworld, hjobs⟩,
        fun h => absurd h hfree⟩
    · exact absurd hstuck.waits Bool.false_ne_true

/-! ## What a cancellation leaves -/

/-- What is done from a moment on keeps to a cancellation. -/
structure Honours (s : Schedule) (id : String) (c : Cancellation) : Prop where
  /-- The stored record stays as it was stamped, at every moment; unless the
  driver was at the lock, no node is started any more. -/
  stored : ∀ t, s.Leads t → ∃ run, t.world.store.get? id = some run ∧ run.EndsAs c.stamped ∧
    c.Allows run.nodes ∧
    (c.place ≠ .lock → run.nodes.map (·.nodeId) = c.run.nodes.map (·.nodeId))
  /-- A turn of the driver makes no attempt and calls no collaborator: it does
nothing to the services, whatever its executors would do to them. -/
  calls : ∀ t job ready, s.Leads t → t.ready = job :: ready → job.id = id →
    (Schedule.take { t with ready } job).world.services = t.world.services
  /-- The run is not cancelled a second time. -/
  once : ∀ commands, ((s.performAll commands).cancel id).1 = some false
  /-- Whoever waits for the run gets it cancelled; a node that was in hand at a
  wait is given up. -/
  joined : ∀ commands, (s.performAll commands).world.isBehind id = true →
    ∃ run, ((s.performAll commands).join id).1 = some run ∧ run.EndsAs c.stamped ∧
      c.Leaves run.nodes ∧ (c.place = .wait → c.GivesUp run.nodes)

/-! ### Waiting for a cancelled run -/

/-- When nobody can take a turn, the driver of a run in the background is at a
wait. -/
theorem exists_waiting (hcrew : Crew notes s.world s.jobs) (hidle : s.Idle) (hready : s.ready = [])
    (hd : s.world.isDriven id = true) : ∃ job ∈ s.waiting, job.unlocked ∈ s.jobs ∧ job.id = id ∧
      ∃ wait, job.process.wait? = some wait := by
  have hline := hidle.going.line_eq_nil hidle.going.claims.1 hready hidle.tired
  obtain ⟨job, hj, rfl⟩ := Multiset.mem_map.mp ((hcrew.driven id).mp hd)
  obtain ⟨job', hj', rfl⟩ := exists_waiting_of_mem hready hidle.tired hline hj
  obtain ⟨-, hwaits⟩ := hidle.going.poised.waiting job' hj'
  exact ⟨job', hj', hj, rfl, Option.isSome_iff_exists.mp hwaits⟩

/-- When nobody can take a turn, nobody drives a cancelled run any more: its
driver would be at a wait that the token has cut off. -/
theorem isDriven_of_idle (hcrew : Crew notes s.world s.jobs) (hidle : s.Idle) (hready : s.ready = [])
    (hc : notes id = some c) : s.world.isDriven id = false := by
  rw [Bool.eq_false_iff]
  intro hd
  obtain ⟨job, hj, hmem, rfl, wait, hwait⟩ := exists_waiting hcrew hidle hready hd
  obtain ⟨k, hk⟩ := hcrew.drives _ hmem
  have hasleep := hidle.going.asleep job hj
  have htoken : wait.token = some k := (hk.within.wait hwait).1
  have hfired : s.world.store.isFired k = true := by
    simp [hk.known.fired, show notes job.unlocked.id = some c from hc]
  rw [Bool.eq_false_iff] at hasleep
  refine hasleep (isOver_iff.mpr ⟨wait, hwait, Wait.isSome_wake?.mpr (Or.inl ?_)⟩)
  rw [htoken]
  exact hfired

/-- A wait for the end of a run in the background that is not over: the run is
driven. -/
theorem isDriven_of_asleep {α : Type} {k : Wake → Process World α}
    (h : isOver s.world (.pause { due := .run id } >>= k) = false)
    (hbehind : s.world.isBehind id = true) : s.world.isDriven id = true := by
  refine (World.isDriven_or_hasEnded hbehind).resolve_right fun hended => ?_
  rw [Bool.eq_false_iff] at h
  refine h (isOver_iff.mpr ⟨{ due := .run id }, rfl, ?_⟩)
  exact Wait.isSome_wake?.mpr (Or.inr (Or.inr hended))

/-- Whoever gets a result has waited for the end, and fetches it. -/
theorem turn_join {run : Option Run} {s' : Schedule}
    (h : s.turn (.pause { due := .run id } >>= fun _ => .step (·.fetchRun id)) =
      (.ended run, s')) :
    ∃ r, s.world.background.lookup id = some (some r) ∧ run = some r ∧
      s'.world = (s.world.fetchRun id).2 := by
  obtain ⟨hended, hworld, -⟩ := turn_eq h
  change (Process.turn World.signals (.await { due := .run id } fun _ => .step (·.fetchRun id))
    _ _ _).outcome = _ at hended
  change (Process.turn World.signals (.await { due := .run id } fun _ => .step (·.fetchRun id))
    _ _ _).state = _ at hworld
  rw [Process.turn] at hended hworld
  split at hended
  · cases hended
  · next hleft =>
    rw [if_neg hleft] at hworld
    cases hw : Wait.wake? { due := .run id } s.world.signals with
    | none =>
      rw [hw] at hended
      cases hended
    | some wake =>
      rw [hw] at hended hworld
      obtain ⟨r, hr⟩ := World.hasEnded_iff.mp (World.hasEnded_of_wake hw)
      have hrun : (s.world.fetchRun id).1 = run := Outcome.ended.inj hended
      refine ⟨r, hr, ?_, hworld.symm⟩
      simp [← hrun, World.fetchRun, hr]

/-- Waiting for a cancelled run comes to an end, and the run is handed over as
the cancellation has left it. -/
theorem join_of_note (h : s.Sound) (hcrew : Crew notes s.world s.jobs) (hc : notes id = some c)
    (hdriven : c.driven = true) (hbehind : s.world.isBehind id = true) :
    ∃ run, (s.join id).1 = some run ∧ run.EndsAs c.stamped ∧ c.Leaves run.nodes := by
  have ha := h.asks (.join id)
  have hrests := (Asked.join id).rests hcrew.fine.free
  have hwithin := (Asked.join id).within
  have hone := (h.serve (.join id)).1.of_one ha hwithin trivial
  rw [join, if_pos hbehind]
  generalize s.serve 1 _ = result at hone
  obtain ⟨fetched, s'⟩ := result
  rcases hone with ⟨run, t, rfl, hserves, hturn⟩ | ⟨-, hserves, hidle, hstuck⟩
  · obtain ⟨notes', hext, hcrew', -⟩ := hserves.crew hcrew hrests
    obtain ⟨run, hrun, rfl, -⟩ := turn_join hturn
    have hf := hcrew'.fine
    obtain ⟨k, hk, -⟩ := hf.ended id run hrun
    obtain ⟨e, he, hends, -⟩ := hf.stored (hext id c hc)
    obtain ⟨e', he', hleft⟩ := hf.noted id c (hext id c hc)
    cases he.symm.trans hk
    cases he'.symm.trans hk
    refine ⟨run, rfl, hends, (hleft hdriven).resolve_left ?_⟩
    simp [World.isDriven_of_hasEnded (World.hasEnded_iff.mpr ⟨run, hrun⟩)]
  · -- nobody drives the run any more, so the wait for its end is over
    obtain ⟨notes', hext, hcrew', -⟩ := hserves.crew hcrew hrests
    have hnot := isDriven_of_idle hcrew' hidle hstuck.ready (hext id c hc)
    have hpasses := (hserves.of_one ha hwithin trivial).2
    have hdriven' := isDriven_of_asleep hstuck.asleep ((hpasses.isBehind id).trans hbehind)
    cases hnot.symm.trans hdriven'

/-! ### The main theorem -/

/-- What a cancellation is of: the moment and the run. -/
structure Describes (t : Schedule) (id : String) (c : Cancellation) : Prop where
  run : t.world.store.get? id = some c.run
  now : c.now = t.world.now
  /-- Where the driver is; if the run has none, nobody has begun. -/
  place : ∀ job ∈ t.jobs, job.id = id → c.place = job.process.place
  alone : (∀ job ∈ t.jobs, job.id ≠ id) → c.place = .start

theorem Honours.of_note (h : s.Sound) (hcrew : Crew notes s.world s.jobs) (hc : notes id = some c)
    (hdriven : s.world.isBehind id = true → c.driven = true) : s.Honours id c := by
  have hlater : ∀ t, s.Leads t → ∃ notes', Crew notes' t.world t.jobs ∧ notes' id = some c ∧
      (t.world.isBehind id = true → s.world.isBehind id = true) := by
    intro t hlead
    obtain ⟨notes', hext, hcrew', hbehind⟩ := hlead.crew hcrew
    exact ⟨notes', hcrew', hext id c hc, hbehind id (by simp [hc])⟩
  constructor
  case stored =>
    intro t hlead
    obtain ⟨notes', hcrew', hc', -⟩ := hlater t hlead
    obtain ⟨e, he, hends, hallows⟩ := hcrew'.fine.stored hc'
    exact ⟨e.run, Store.get?_eq he, hends, hallows, hallows.nodeIds⟩
  case calls =>
    intro t job ready hlead hready hid
    obtain ⟨notes', hcrew', hc', -⟩ := hlater t hlead
    rw [jobs_cons hready] at hcrew'
    refine (crew_take (s := { t with ready }) hcrew').2.2 ?_
    simp [hid, hc']
  case once =>
    intro commands
    obtain ⟨hsound, hlead⟩ := Sound.performAll commands h
    obtain ⟨notes', hcrew', hc', -⟩ := hlater _ hlead
    obtain ⟨t, cancelled, s', hcancel, hat, -⟩ := hsound.cancelsAt id
    have hrests := (Asked.cancel id).rests hcrew'.fine.free
    obtain ⟨notes₁, hext, hcrew₁, -⟩ := hat.serves.crew hcrew' hrests
    obtain ⟨e, he, hends, -⟩ := hcrew₁.fine.stored (hext id c hc')
    have hend : e.run.status.isTerminal = true := by
      rw [hends.status]
      rfl
    have hanswer : (t.world.cancelRun id).1 = false :=
      congrArg Prod.fst (Store.cancel_of_terminal he hend t.world.now)
    rw [hcancel, ← hat.answer, hanswer]
  case joined =>
    intro commands hbehind
    obtain ⟨hsound, hlead⟩ := Sound.performAll commands h
    obtain ⟨notes', hcrew', hc', hback⟩ := hlater _ hlead
    obtain ⟨run, hrun, hends, hleaves⟩ :=
      join_of_note hsound hcrew' hc' (hdriven (hback hbehind)) hbehind
    exact ⟨run, hrun, hends, hleaves, hleaves.givesUp⟩

/-- A cancellation that succeeds: everything keeps to it from then on. -/
theorem CancelsAt.honours {s' : Schedule} (h : s.Sound) (h' : s'.Sound)
    (hat : s.CancelsAt id t true s') : ∃ c, t.Describes id c ∧
      s'.world.store.get? id = some c.stamped ∧ s'.Honours id c := by
  obtain ⟨hserves, hanswer, hworld, hjobs⟩ := hat
  obtain ⟨notes, hcrew⟩ := h.crew
  obtain ⟨notes₁, -, hcrew₁, -⟩ := hserves.crew hcrew ((Asked.cancel id).rests hcrew.fine.free)
  obtain ⟨run, hrun, hlive⟩ := Store.cancel_fst.mp hanswer
  obtain ⟨e, he, rfl⟩ := Store.exists_entry? hrun
  have hcrew₂ := hcrew₁.cancelRun he hlive
  have hc := Function.update_self id (some (t.world.cancellation id e.run (placeOf t.jobs id))) notes₁
  generalize hcancellation : t.world.cancellation id e.run (placeOf t.jobs id) = c at hcrew₂ hc
  obtain ⟨hdriven, hplace, hofrun, hnow⟩ : c.driven = t.world.isDriven id ∧
      c.place = placeOf t.jobs id ∧ c.run = e.run ∧ c.now = t.world.now := by
    rw [← hcancellation]
    exact ⟨rfl, rfl, rfl, rfl⟩
  rw [← hworld, ← hjobs] at hcrew₂
  refine ⟨c, ⟨by rw [hofrun, hrun], hnow, ?_, ?_⟩, ?_, .of_note h' hcrew₂ hc ?_⟩
  · rintro job hj rfl
    rw [hplace, hcrew₁.placeOf_eq hj]
  · intro hnone
    rw [hplace, placeOf, dif_neg]
    rintro ⟨job, hj, hid⟩
    exact hnone job hj hid
  · rw [hworld]
    have hnew : Store.entry? (t.world.cancelRun id).2.store id = some ⟨c.stamped, e.token⟩ := by
      rw [Cancellation.stamped, hofrun, hnow]
      exact Store.entry?_cancel he hlive t.world.now
    exact Store.get?_eq hnew
  · -- a run in the background that has not ended has a driver
    intro hbehind
    have hbehind' : t.world.isBehind id = true := by rwa [hworld] at hbehind
    rw [hdriven]
    refine (World.isDriven_or_hasEnded hbehind').resolve_right ?_
    intro hended
    obtain ⟨run, hl⟩ := World.hasEnded_iff.mp hended
    obtain ⟨k, hk, hend⟩ := hcrew₁.fine.ended id run hl
    cases he.symm.trans hk
    simp [hlive] at hend

/-- **Cancelling a run**, whatever was done before: the request is answered,
and it succeeds exactly if the run is known and has not ended at the moment
at which it takes effect, which is at once unless somebody has the lock.
Everything keeps to the cancellation from then on. -/
theorem cancel_honoured (now : Nat) (registry : Registry) (services : Services) (series : Series)
    (before : List Command) (id : String) : ∃ s t cancelled s',
      s = performAll { world := { now, registry, services, series } } before ∧
      s.cancel id = (some cancelled, s') ∧ s.CancelsAt id t cancelled s' ∧
      (s.Unhindered → t = s) ∧
      (cancelled = true ↔
        ∃ run, t.world.store.get? id = some run ∧ run.status.isTerminal = false) ∧
      (cancelled = true → ∃ c, t.Describes id c ∧
        s'.world.store.get? id = some c.stamped ∧ s'.Honours id c) := by
  have hstart : Sound { world := { now, registry, services, series } } := .of_empty rfl rfl
  obtain ⟨hsound, -⟩ := hstart.performAll before
  obtain ⟨t, cancelled, s', hcancel, hat, hfree⟩ := hsound.cancelsAt id
  have hsound' : s'.Sound := by
    have h := (hsound.perform (.cancel id)).1
    rwa [perform, hcancel] at h
  refine ⟨_, t, cancelled, s', rfl, hcancel, hat, hfree, ?_, ?_⟩
  · rw [← hat.answer]
    exact Store.cancel_fst
  · rintro rfl
    exact hat.honours hsound hsound'

end Schedule

/-- A workflow of one node. -/
def Workflow.lone : Workflow :=
  { (default : Workflow) with
    name := "lone"
    nodes := [⟨"d", .delay, none, .null, [], []⟩] }

/-- An engine whose nodes take a second. -/
def Engine.slow : Engine where
  executors _ := some fun _ _ services =>
    ({ finish := some { lasts := some 1000, ending := .answer { value := .null } } }, services)
  config := default

namespace Schedule

/-- The second is over, and nobody has given way to the run since. -/
def overslept : Schedule :=
  performAll {} (.spawn .slow .lone .null {} :: .advance 1000 :: .replicate 127 (.get "exec-9"))

set_option maxRecDepth 100000 in
/-- The node is in hand, and the cancellation succeeds; but while it waits for
the lock the driver comes past its last look at the token, and the node
completes. -/
theorem completed_after_cancel :
    (overslept.world.store.get? "exec-1").map (fun run => (run.status, run.nodes.map (·.status))) =
      some (.running, [.running]) ∧
    (overslept.cancel "exec-1").1 = some true ∧
    ((overslept.cancel "exec-1").2.join "exec-1").1.map
        (fun run => (run.status, run.nodes.map (·.status))) = some (.cancelled, [.completed]) := by
  decide +kernel

end Schedule

end Automation
