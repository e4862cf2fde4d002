/-
Automation.Proofs.Engine.DeadlineTheorems — runs and their deadlines, in a
schedule.

A run with a limited time waits for nothing without its deadline
(`Underway.instant`), so there is always an instant that the clock can jump
to, and neither the run nor whoever waits for it waits for ever. For the
run, what happens in the schedule is punctual company: executed at once it
is answered when its deadline comes, if not before (`Sound.execute_meets`);
in the background it is driven until its deadline at most
(`Follows.now_le`), and whoever waits for it gets a result that has come in
time (`Follows.join_meets`).
-/
import Automation.Proofs.Engine.CancelTheorems
import Automation.Proofs.Engine.FollowTheorems

namespace Automation

open Process
open Automation.Json (Value)

/-! ## Waits with a deadline -/

/-- What comes of a process stops as often at most, and its waits are `ok`,
too. -/
theorem Process.Course.within {σ α : Type} {c : Company σ} {ok : Wait → Prop} {n : Nat}
    {p q : Process σ α} {s t : σ} (h : Course c p s q t) (hp : p.Within ok n) : q.Within ok n := by
  induction h with
  | start => exact hp
  | act _ ih => exact ih _
  | locked _ ih =>
    cases n with
    | zero => exact ih.elim
    | succ n => exact (ih _).le (Nat.le_succ n)
  | spend _ ih => exact ih
  | await _ _ ih =>
    cases n with
    | zero => exact ih.elim
    | succ n => exact (ih.2 _).le (Nat.le_succ n)
  | others _ _ _ ih => exact ih

theorem Wait.Limited.isSome_instant? {settings : Settings} {limit : Nat} {wait : Wait}
    (h : wait.Limited settings) (hlimit : settings.timeout = some limit) :
    wait.instant?.isSome = true := by
  obtain ⟨deadline, hdeadline⟩ := Option.isSome_iff_exists.mp (h (by simp [hlimit]))
  obtain ⟨t, ht, -⟩ := Wait.instant?_of_deadline hdeadline
  exact Option.isSome_iff_exists.mpr ⟨t, ht⟩

theorem Engine.wait?_drive (e : Engine) (w : Workflow) (run : Run) (token : Nat) :
    (e.drive w run token).wait? = none := by
  unfold drive
  split <;> rfl

section

variable {e : Engine} {w : Workflow} {run : Run} {token begun limit : Nat} {q : Process World Run}
  {s : World}

/-- A driver with a limited time waits for an instant. -/
theorem Process.Underway.instant (h : Underway punctual (·.now = begun) (e.drive w run token) q s)
    (hlimit : w.settings.timeout = some limit) {wait : Wait} (hwait : q.wait? = some wait) :
    wait.instant?.isSome = true := by
  cases h with
  | fresh hq _ =>
    rw [hq, e.wait?_drive] at hwait
    cases hwait
  | goes _ hcourse _ =>
    have hwithin := hcourse.within (e.within_drive w run token)
    exact (hwithin.wait hwait).2.1.isSome_instant? hlimit

/-- The clock has not come past its deadline. -/
theorem Process.Underway.now_le (h : Underway punctual (·.now = begun) (e.drive w run token) q s)
    (hw : w.isValid = true) (hlimit : w.settings.timeout = some limit) (hfresh : run.Fresh) :
    s.now ≤ begun + limit := by
  cases h with
  | fresh _ hs => exact hs ▸ Nat.le_add_right _ _
  | goes hs₀ hcourse _ =>
    rw [← e.fst_relate] at hcourse
    obtain ⟨q', hcourse, -⟩ := hcourse.of_map
    exact hs₀ ▸ (hcourse.holds (Engine.holds_relate_punctual hw hlimit hfresh token)).now

end

/-- A run that began at an instant and had so much time has come to this result
in punctual company, and has met its deadline. -/
def Engine.EndsInTime (e : Engine) (w : Workflow) (run : Run) (token begun limit : Nat)
    (run' : Run) (t : World) : Prop :=
  ∃ s₀ story, s₀.now = begun ∧ Course punctual (e.relate w run token) s₀ (done (run', story)) t ∧
    run'.MeetsDeadline w run.context story (begun + limit) t

namespace Schedule

variable {s t : Schedule}

/-! ## Nobody waits for ever -/

/-- If the clock cannot jump, nobody waits for an instant. -/
theorem of_next?_eq_none {α : Type} {p : Process World α} (h : s.next? p = none) :
    (∀ wait, p.wait? = some wait → wait.instant? = none) ∧
      ∀ job ∈ s.waiting, ∀ wait, job.process.wait? = some wait → wait.instant? = none := by
  have hnone := List.filterMap_eq_nil_iff.mp (List.min?_eq_none_iff.mp h)
  have hinstant : ∀ {β : Type} {p : Process World β} {wait},
      p.wait?.bind (·.instant?) = none → p.wait? = some wait → wait.instant? = none := by
    intro β p wait hbind hwait
    rwa [hwait, Option.bind_some] at hbind
  constructor
  · exact fun wait => hinstant (hnone _ List.mem_cons_self)
  · intro job hj wait
    exact hinstant (hnone _ (List.mem_cons_of_mem _ (List.mem_map.mpr ⟨job, hj, rfl⟩)))

/-- Who waits for an instant at every wait does not wait for ever. -/
theorem Stuck.elim {α : Type} {q : Process World α} {ok : Wait → Prop} {n : Nat} (h : s.Stuck q)
    (hq : q.Within ok n) (hok : ∀ wait, ok wait → wait.instant?.isSome = true) : False := by
  obtain ⟨wait, hwait⟩ := Option.isSome_iff_exists.mp h.waits
  have hsome := hok wait (hq.wait hwait)
  rw [(of_next?_eq_none h.next).1 wait hwait] at hsome
  cases hsome

section

variable {e : Engine} {w : Workflow} {limit : Nat}

/-! ## Executing a run -/

/-- **A run that is executed is answered in time.** -/
theorem Sound.execute_meets (hs : s.Sound) (hw : w.isValid = true)
    (hlimit : w.settings.timeout = some limit) (payload : Value) (options : RunOptions) :
    ∃ run story s', s.execute e w payload options = (some run, s') ∧
      Course punctual (e.recount w payload options) s.world (done (run, story)) s'.world ∧
      run.MeetsDeadline w
        (Context.seed w payload options.overrides e.config.environment (.reading s.world.now))
        story (s.world.now + limit) s'.world := by
  have hasked : Asked (e.execute w payload options) (Engine.stops w) := .execute e w payload options
  have ha := hs.asks hasked
  have hcomes := (hs.serve hasked).1
  have hattended := serve_attends ha hs.idle (Engine.stops w)
  unfold Schedule.execute
  generalize s.serve (Engine.stops w) (e.execute w payload options) = result at *
  obtain ⟨_ | run, s'⟩ := result
  · obtain ⟨q, hserves, -, hstuck⟩ := hcomes
    have hwithin := hserves.within (e.within_execute w payload options)
    exact (hstuck.elim hwithin fun wait h => h.1.isSome_instant? hlimit).elim
  · have hcourse := hattended.course ha hs.idle
    rw [← e.fst_recount] at hcourse
    obtain ⟨⟨run, story⟩, hrecount, rfl⟩ := hcourse.of_map_done
    refine ⟨run, story, s', rfl, hrecount, ?_⟩
    exact (hrecount.holds (Engine.holds_recount_punctual hw hlimit payload options)).2

/-! ## Runs in the background -/

/-- Setting a run off is answered. -/
theorem Sound.spawn_answers (hs : s.Sound) (e : Engine) (w : Workflow) (payload : Value)
    (options : RunOptions) : ∃ run token t,
      s.serve 2 (e.prepare w payload options) = (some (run, token), t) ∧
      s.spawn e w payload options = (some run.id, t.background e w run token) := by
  have hcomes := (hs.serve (.prepare e w payload options)).1
  unfold Schedule.spawn
  generalize s.serve 2 (e.prepare w payload options) = result at hcomes
  obtain ⟨_ | ⟨run, token⟩, t⟩ := result
  · obtain ⟨q, hserves, -, hstuck⟩ := hcomes
    have hwaits : (e.prepare w payload options).Within (fun _ => False) 2 :=
      e.within_prepare w payload options
    exact (hstuck.elim (hserves.within hwaits) fun _ h => h.elim).elim
  · exact ⟨run, token, t, rfl, rfl⟩

/-- A run is followed from the moment at which it is put into the background. -/
theorem Sound.follows (hs : s.Sound) {payload : Value} {options : RunOptions} {run : Run}
    {token : Nat} (h : s.serve 2 (e.prepare w payload options) = (some (run, token), t)) :
    Follows run.id (e.drive w run token) t.world.now t.world.now (t.background e w run token) := by
  obtain ⟨notes, hcrew⟩ := hs.crew
  have hcomes := (hs.serve (.prepare e w payload options)).1
  rw [h] at hcomes
  obtain ⟨notes', -, hcrew', -, hapart, -⟩ :=
    hcomes.1.crew hcrew (rests_prepare e w payload options hcrew.fine.free)
  have hworld : (t.background e w run token).world = t.world.leaveRun run.id := rfl
  refine ⟨?_, Nat.le_refl _, ?_, ?_⟩
  · obtain ⟨r, hr, -⟩ := hapart.known.entry
    exact Option.isSome_iff_exists.mpr ⟨_, hr⟩
  · intro job hj hid
    rw [jobs_background] at hj
    rcases Multiset.mem_cons.mp hj with rfl | hj
    · exact .fresh rfl rfl
    · -- nobody drives the run before
      have hdriven := World.isDriven_iff.mp (hid ▸ hcrew'.isDriven hj)
      cases hapart.lookup.symm.trans hdriven
  · intro run' hrun'
    rw [hworld, World.lookup_leaveRun hapart.lookup] at hrun'
    cases hrun'

section

variable {run : Run} {token begun since : Nat} {i : String}

/-- A run that is followed is not driven past its deadline. -/
theorem Follows.now_le {notes : String → Option Cancellation} (hcrew : Crew notes s.world s.jobs)
    (h : s.Follows i (e.drive w run token) begun since) (hw : w.isValid = true)
    (hlimit : w.settings.timeout = some limit) (hfresh : run.Fresh)
    (hdriven : s.world.isDriven i = true) : s.world.now ≤ begun + limit := by
  obtain ⟨job, hj, hid⟩ := Multiset.mem_map.mp ((hcrew.driven i).mp hdriven)
  exact (h.job job hj hid).now_le hw hlimit hfresh

/-- While somebody waits for the end of the run, the clock jumps only as long as
the run is driven. -/
theorem Follows.clock_le {q : Outcome World (Option Run)} (hs : s.Sound)
    (h : s.Follows i (e.drive w run token) begun since) (hw : w.isValid = true)
    (hlimit : w.settings.timeout = some limit) (hfresh : run.Fresh)
    (hbehind : s.world.isBehind i = true)
    (hattends : Attends s (.pause { due := .run i } >>= fun _ => .step (·.fetchRun i)) q t) :
    t.world.now ≤ max s.world.now (begun + limit) := by
  have hasked := Asked.join i
  have ha := hs.asks hasked
  have hlasting : Lasting i (Follows i (e.drive w run token) begun since) :=
    follows_lasting (e.wait?_drive w run token)
  induction hattends with
  | start => exact Nat.le_max_left _ _
  | @request q t hattends _ _ ih =>
    have hdoes := (hlasting.attends hs hasked h hattends).2
    exact (steps_turn hdoes).now.symm ▸ ih
  | @job q t job ready hattends _ hready ih =>
    have htame : job.Tame :=
      tame_of_mem (ha.tame_serves (hattends.serving ha hs.idle).1.serves) (by simp [hready])
    exact (take_now (s := { t with ready }) htame).symm ▸ ih
  | round _ ih => exact ih
  | @clock q t now hattends hcan hready htired hnext ih =>
    have hlater := hattends.clock hcan hready htired hnext
    have hfollows := (hlasting.attends hs hasked h hlater).1
    obtain ⟨notes, hcrew⟩ := hs.crew_serves hasked (hlater.serving ha hs.idle).1.serves
    -- the request stands where it began, at its wait, and that is not over
    obtain ⟨hserving, -⟩ := hattends.serving ha hs.idle
    obtain ⟨-, r, rfl, -⟩ := hserving.going.waits hcan hready htired
    obtain ⟨rfl, hpasses⟩ := hserving.serves.of_one ha hasked.within trivial
    have hdriven := isDriven_of_asleep hcan ((hpasses.isBehind i).trans hbehind)
    have hle := hfollows.now_le hcrew hw hlimit hfresh hdriven
    exact Nat.le_trans hle (Nat.le_max_right _ _)

/-- **Whoever waits for the run gets a result that has come in time.** -/
theorem Follows.join_meets (hs : s.Sound) (h : s.Follows i (e.drive w run token) begun since)
    (hw : w.isValid = true) (hlimit : w.settings.timeout = some limit) (hfresh : run.Fresh)
    (hbehind : s.world.isBehind i = true) : ∃ run' s' t, s.join i = (some run', s') ∧
      s'.world.now ≤ max s.world.now (begun + limit) ∧ since ≤ t.now ∧ t.now ≤ s'.world.now ∧
      e.EndsInTime w run token begun limit run' t := by
  have hasked := Asked.join i
  have ha := hs.asks hasked
  have hlasting : Lasting i (Follows i (e.drive w run token) begun since) :=
    follows_lasting (e.wait?_drive w run token)
  have hcomes := (hs.serve hasked).1
  have hattended := serve_attends ha hs.idle 1
  have hlater := hlasting.serve hs h hasked
  rw [join, if_pos hbehind]
  generalize s.serve 1 _ = result at *
  obtain ⟨_ | fetched, s'⟩ := result
  · -- the driver waits for an instant
    obtain ⟨q, hserves, hidle, hstuck⟩ := hcomes
    obtain ⟨rfl, hpasses⟩ := hserves.of_one ha hasked.within trivial
    obtain ⟨notes, hcrew⟩ := hs.crew_serves hasked hserves
    have hdriven := isDriven_of_asleep hstuck.asleep ((hpasses.isBehind i).trans hbehind)
    obtain ⟨job, hj, hmem, rfl, wait, hwait⟩ := exists_waiting hcrew hidle hstuck.ready hdriven
    have hsome := (hlater.job _ hmem rfl).instant hlimit hwait
    rw [(of_next?_eq_none hstuck.next).2 job hj wait hwait] at hsome
    cases hsome
  · obtain ⟨q, u, hattends, -, hturn⟩ := hattended
    obtain ⟨hfollows, hdoes⟩ := hlasting.attends hs hasked h hattends
    have hclock := h.clock_le hs hw hlimit hfresh hbehind hattends
    have hnow := (steps_turn (t := u) hdoes).now
    obtain ⟨hq, -⟩ := (hattends.serving ha hs.idle).1.serves.of_one ha hasked.within trivial
    rw [hturn] at hnow
    rw [hq] at hturn
    obtain ⟨run', hrun', rfl, -⟩ := turn_join hturn
    obtain ⟨s₀, t, rfl, hsince, hle, hcourse⟩ := hfollows.ended run' hrun'
    rw [← e.fst_relate] at hcourse
    obtain ⟨⟨run', story⟩, hrelate, rfl⟩ := hcourse.of_map_done
    have hmeets := (hrelate.holds (Engine.holds_relate_punctual hw hlimit hfresh token)).2
    exact ⟨run', s', t, rfl, hnow.symm ▸ hclock, hsince, hnow.symm ▸ hle, s₀, story, rfl, hrelate,
      hmeets⟩

/-- What is known of a run that is driven holds from this moment on. -/
theorem Follows.from_now {p₀ : Process World Run} (h : s.Follows i p₀ begun since)
    (hdriven : s.world.isDriven i = true) : s.Follows i p₀ begun s.world.now := by
  refine ⟨h.known, Nat.le_refl _, h.job, ?_⟩
  intro run' hrun'
  cases (World.isDriven_iff.mp hdriven).symm.trans hrun'

end

end

end Schedule

/-- **Runs meet their deadlines.** A run of a valid workflow whose time is
limited has ended when its deadline comes, or ends then, however its errors
are handled, its nodes are attempted again and its executors answer.

* This holds in any punctual company, at every moment.
* Whatever was done before, a run that is executed is answered in time.
* A run that is put into the background begins at once. Whatever is done
  afterwards, it is not driven past its deadline; and whoever waits for it, at
  any time, waits until then at most, and gets a result that has come in
  time.

`Run.MeetsDeadline` says what it is to meet a deadline, by the story that
`relate` and `recount` tell beside a run. -/
theorem runs_meet_deadlines (e : Engine) (w : Workflow) (payload : Value) (options : RunOptions)
    {limit : Nat} (hw : w.isValid = true) (hlimit : w.settings.timeout = some limit) :
    (∀ run token, Prod.fst <$> e.relate w run token = e.drive w run token) ∧
    Prod.fst <$> e.recount w payload options = e.execute w payload options ∧
    (∀ run token s q t, run.Fresh → Course punctual (e.relate w run token) s q t →
      t.now ≤ s.now + limit ∧ ∀ run' story, q = done (run', story) →
        run'.MeetsDeadline w run.context story (s.now + limit) t) ∧
    ∀ now registry services series before, ∃ s,
      s = Schedule.performAll { world := { now, registry, services, series } } before ∧
      (∃ run story s', s.execute e w payload options = (some run, s') ∧
        Course punctual (e.recount w payload options) s.world (done (run, story)) s'.world ∧
        run.MeetsDeadline w
          (Context.seed w payload options.overrides e.config.environment (.reading s.world.now))
          story (s.world.now + limit) s'.world) ∧
      ∃ run token s₁, s.spawn e w payload options = (some run.id, s₁) ∧
        s₁.world.now = s.world.now ∧ s₁.world.isDriven run.id = true ∧
        e.SetsOff w payload options s.world run ∧
        ∀ after u, u = s₁.performAll after →
          (u.world.isDriven run.id = true → u.world.now ≤ s.world.now + limit) ∧
          (u.world.isBehind run.id = true → ∃ run' u' t, u.join run.id = (some run', u') ∧
            u'.world.now ≤ max u.world.now (s.world.now + limit) ∧
            (u.world.isDriven run.id = true → u.world.now ≤ t.now) ∧ t.now ≤ u'.world.now ∧
            e.EndsInTime w run token s.world.now limit run' t) := by
  refine ⟨e.fst_relate w, e.fst_recount w payload options, ?_, ?_⟩
  · intro run token s q t hfresh hcourse
    have hholds := hcourse.holds (Engine.holds_relate_punctual hw hlimit hfresh token)
    refine ⟨hholds.now, ?_⟩
    rintro run' story rfl
    exact hholds.2
  · intro now registry services series before
    have hstart : Schedule.Sound { world := { now, registry, services, series } } :=
      .of_empty rfl rfl
    obtain ⟨hs, -⟩ := hstart.performAll before
    generalize Schedule.performAll _ before = s at hs
    refine ⟨s, rfl, hs.execute_meets hw hlimit payload options, ?_⟩
    obtain ⟨run, token, t, hprepare, hspawn⟩ := hs.spawn_answers e w payload options
    obtain ⟨hnow, hoff, hfresh⟩ := hs.prepares e w payload options hprepare
    have hs₁ := (hs.spawn e w payload options).1
    have hfollows := hs.follows hprepare
    rw [hspawn] at hs₁
    rw [hnow] at hfollows
    refine ⟨run, token, _, hspawn, hnow, ?_, hoff, ?_⟩
    · obtain ⟨notes, hcrew⟩ := hs₁.crew
      have hjobs := t.jobs_background e w run token
      exact hcrew.isDriven (hjobs ▸ Multiset.mem_cons_self _ _)
    · rintro after u rfl
      have hu := (hs₁.performAll after).1
      replace hfollows := hfollows.performAll (e.wait?_drive w run token) after hs₁
      generalize Schedule.performAll _ after = u at hu hfollows
      constructor
      · obtain ⟨notes, hcrew⟩ := hu.crew
        exact hfollows.now_le hcrew hw hlimit (hfresh hw)
      · intro hbehind
        by_cases hdriven : u.world.isDriven run.id = true
        · obtain ⟨run', u', t, hjoin, hle, hsince, hrest⟩ :=
            (hfollows.from_now hdriven).join_meets hu hw hlimit (hfresh hw) hbehind
          exact ⟨run', u', t, hjoin, hle, fun _ => hsince, hrest⟩
        · obtain ⟨run', u', t, hjoin, hle, -, hrest⟩ :=
            hfollows.join_meets hu hw hlimit (hfresh hw) hbehind
          exact ⟨run', u', t, hjoin, hle, fun h => absurd h hdriven, hrest⟩

/-- A workflow that has half a second. -/
def Workflow.brief : Workflow :=
  { Workflow.lone with settings := { Workflow.lone.settings with timeout := some 500 } }

set_option maxRecDepth 100000 in
/-- A node that takes a second is given up after half of it. -/
theorem brief_late : ∃ run story s', Schedule.execute {} .slow .brief .null {} = (some run, s') ∧
    s'.world.now = 500 ∧ run.status = .failed ∧ run.HasShape .brief story .late := by
  obtain ⟨-, -, -, hall⟩ := runs_meet_deadlines .slow .brief .null {} (by decide)
    (rfl : Workflow.brief.settings.timeout = some 500)
  obtain ⟨_, rfl, ⟨run, story, s', hexecute, -, hmeets⟩, -⟩ :=
    hall 0 {} {} { start := "exec-" } []
  have hend : (Schedule.execute {} .slow .brief .null {}).1.map (·.status) = some .failed ∧
      (Schedule.execute {} .slow .brief .null {}).2.world.now = 500 := by
    decide +kernel
  obtain ⟨hstatus, hnow⟩ := hend
  change Schedule.execute {} .slow .brief .null {} = (some run, s') at hexecute
  rw [hexecute] at hstatus hnow
  have hfailed : run.status = .failed := Option.some.inj hstatus
  obtain ⟨-, hlate⟩ := hmeets.late (by simp [hfailed])
  exact ⟨run, story, s', hexecute, hnow, hfailed, hlate.mp hnow⟩

end Automation
