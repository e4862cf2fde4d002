/-
Automation.Proofs.Engine.FollowTheorems — one run in the background,
followed through all that is done.

A property of schedules is `Lasting` if turns of a request and of jobs,
jumps of the clock and further runs in the background keep it. Then every
command keeps it (`Lasting.performAll`).

`Schedule.Follows` follows the run of an id from the moment at which it was
put into the background. As long as it has not ended, what is left of its
driver has come from a course in punctual company that began then; and a
result that is ready to be fetched has come from such a course. This is
lasting (`follows_lasting`). The clock is what it is about: when it jumps,
the job waits, and the instant that it waits for is not passed over.
-/
import Automation.Proofs.Engine.ClockTheorems

namespace Automation

open Process
open Automation.Json (Value)

/-! ## One job -/

/-- What is left of a driver, of which this is known when it began. -/
inductive Process.Underway (c : Company World) (begins : World → Prop) (p₀ q : Process World Run)
    (s : World) : Prop where
  /-- It has not taken a turn. -/
  | fresh : q = p₀ → begins s → Underway c begins p₀ q s
  | goes {s₀ : World} : begins s₀ → Course c p₀ s₀ q s → q.AtStop → Underway c begins p₀ q s

namespace Process.Underway

variable {c : Company World} {begins : World → Prop} {p₀ q : Process World Run} {s s' : World}

/-- The others do what they may do anywhere. -/
theorem quiet (h : Underway c begins p₀ q s) (hbegins : begins s → begins s')
    (ho : ∀ place, c.others place s s') : Underway c begins p₀ q s' := by
  cases h with
  | fresh hq hs => exact .fresh hq (hbegins hs)
  | goes hs₀ hcourse hstop => exact .goes hs₀ (hcourse.others hstop (ho _)) hstop

/-- The others do something while the job waits. -/
theorem beside (h : Underway c begins p₀ q s) {wait : Wait} (hp₀ : p₀.wait? = none)
    (hwait : q.wait? = some wait) (ho : c.others (some wait) s s') :
    Underway c begins p₀ q s' := by
  cases h with
  | fresh hq _ =>
    rw [hq, hp₀] at hwait
    cases hwait
  | goes hs₀ hcourse hstop => exact .goes hs₀ (hcourse.others hstop (hwait ▸ ho)) hstop

/-- The job takes a turn. -/
theorem turn (h : Underway c begins p₀ q s) (left : Nat) (access : Access) : ∃ s₀, begins s₀ ∧
    Course c p₀ s₀ (q.turn c.signals left access s).outcome.rest
      (q.turn c.signals left access s).state := by
  cases h with
  | fresh hq hs =>
    subst hq
    exact ⟨s, hs, Course.turn left access .start⟩
  | goes hs₀ hcourse hstop => exact ⟨_, hs₀, hcourse.turn left access⟩

end Process.Underway

namespace Schedule

section

variable {α : Type} {s t : Schedule} {p : Process World α}

theorem steps_turn (h : p.Does World.Steps) : t.world.Steps (t.turn p).2.world := by
  rw [turn_world]
  exact (h.turn (fun _ => .rfl) (fun _ _ _ => .trans) World.signals t.left (t.access t.locks)
    t.world).1

theorem does_turn (h : p.Does World.Steps) : (t.turn p).1.rest.Does World.Steps := by
  rw [turn_fst]
  exact (h.turn (fun _ => .rfl) (fun _ _ _ => .trans) World.signals t.left (t.access t.locks)
    t.world).2

/-- While a run is set off, no time passes. -/
theorem Sound.prepares (hs : s.Sound) (e : Engine) (w : Workflow) (payload : Value)
    (options : RunOptions) {run : Run} {token : Nat}
    (h : s.serve 2 (e.prepare w payload options) = (some (run, token), t)) :
    t.world.now = s.world.now ∧ e.SetsOff w payload options s.world run ∧
      (w.isValid = true → run.Fresh) := by
  have ha := hs.asks (.prepare e w payload options)
  have hattended := serve_attends ha hs.idle 2
  rw [h] at hattended
  have hcourse := hattended.course ha hs.idle
  have hholds := Engine.holds_prepare_punctual e w payload options (Nat.le_refl s.world.now)
  obtain ⟨hnow, hoff⟩ := (hcourse.holds hholds).2
  refine ⟨hnow, hoff, fun hw => ?_⟩
  exact hcourse.of_always (e.always_prepare_fresh hw payload options)

end

/-! ## What lasts -/

/-- What holds of a schedule and of the run of an id, which is known, and goes on to
hold whatever is done. -/
structure Lasting (i : String) (I : Schedule → Prop) : Prop where
  known {s : Schedule} : I s → (s.world.store.entry? i).isSome = true
  /-- A request takes a turn. -/
  request {α : Type} {s : Schedule} {p : Process World α} :
    p.Does World.Steps → I s → I (s.turn p).2
  /-- A job takes a turn. -/
  take {notes : String → Option Cancellation} {s : Schedule} {job : Job} {ready : List Job} :
    Crew notes s.world s.jobs → job.Tame → s.ready = job :: ready → I s →
      I (Schedule.take { s with ready } job)
  /-- The jobs that have had their turns are ready again. -/
  round {s : Schedule} : I s → I { s with ready := s.ready ++ s.tired, tired := [] }
  /-- The clock jumps. -/
  clock {α : Type} {s : Schedule} {q : Outcome World α} {now : Nat} :
    s.Going q → s.canGoOn q = false → s.ready = [] → s.tired = [] → s.next? q.rest = some now →
      I s → I (s.setClock now)
  /-- Another run is put into the background. -/
  background {s : Schedule} (e : Engine) (w : Workflow) {run : Run} (token : Nat) :
    run.id ≠ i → I s → I (s.background e w run token)

section

variable {α : Type} {i : String} {I : Schedule → Prop} {s s₀ t : Schedule} {p : Process World α}
  {q : Outcome World α}

/-- While a request is attended to. -/
theorem Lasting.attends (hI : Lasting i I) (hs : s₀.Sound) {n : Nat} (hp : Asked p n) (h : I s₀)
    (hattends : Attends s₀ p q t) : I t ∧ q.rest.Does World.Steps := by
  have ha := hs.asks hp
  -- what is left of the request goes on to take such steps only
  induction hattends with
  | start => exact ⟨h, hp.does⟩
  | request _ _ _ ih => exact ⟨hI.request ih.2 ih.1, does_turn ih.2⟩
  | @job q t job ready hattends _ hready ih =>
    have hserves := (hattends.serving ha hs.idle).1.serves
    obtain ⟨notes, hcrew⟩ := hs.crew_serves hp hserves
    have htame : job.Tame := tame_of_mem (ha.tame_serves hserves) (by simp [hready])
    exact ⟨hI.take hcrew htame hready ih.1, ih.2⟩
  | round _ ih => exact ⟨hI.round ih.1, ih.2⟩
  | clock hattends hcan hready htired hnext ih =>
    have hgoing := (hattends.serving ha hs.idle).1.going
    exact ⟨hI.clock hgoing hcan hready htired hnext ih.1, ih.2⟩

/-- After a request. -/
theorem Lasting.serve (hI : Lasting i I) (hs : s.Sound) (h : I s) {n : Nat} (hp : Asked p n) :
    I (s.serve n p).2 := by
  have hattended := serve_attends (hs.asks hp) hs.idle n
  generalize s.serve n p = result at hattended
  obtain ⟨_ | a, t⟩ := result
  · obtain ⟨q, hattends⟩ := hattended
    exact (hI.attends hs hp h hattends).1
  · obtain ⟨q, u, hattends, -, hturn⟩ := hattended
    obtain ⟨hlasts, hdoes⟩ := hI.attends hs hp h hattends
    have hnext := hI.request hdoes hlasts
    rwa [hturn] at hnext

/-- **Every command keeps what lasts.** A run that is set off is not the one that is
known. -/
theorem Lasting.perform (hI : Lasting i I) (hs : s.Sound) (h : I s) (command : Command) :
    I (s.perform command) := by
  cases command with
  | execute e w payload options => exact hI.serve hs h (.execute e w payload options)
  | advance ms => exact hI.serve hs h (.pass _)
  | cancel id => exact hI.serve hs h (.cancel id)
  | get id => exact hI.serve hs h (.inspect fun store => store.get? id)
  | join id =>
    have hserve := hI.serve hs h (.join id)
    show I (s.join id).2
    unfold Schedule.join
    split
    · generalize s.serve 1 _ = result at *
      obtain ⟨_ | run, t⟩ := result
      · exact hserve
      · exact hserve
    · exact h
  | spawn e w payload options =>
    have hserve := hI.serve hs h (.prepare e w payload options)
    show I (s.spawn e w payload options).2
    unfold Schedule.spawn
    generalize hresult : s.serve 2 (e.prepare w payload options) = result at hserve
    obtain ⟨_ | ⟨run, token⟩, t⟩ := result
    · exact hserve
    · refine hI.background e w token ?_ hserve
      obtain ⟨-, hoff, -⟩ := hs.prepares e w payload options hresult
      obtain ⟨notes, hcrew⟩ := hs.crew
      rintro rfl
      have hknown := hI.known h
      rw [hoff.id, hcrew.fine.entry?_nextRun] at hknown
      cases hknown

theorem Lasting.performAll (hI : Lasting i I) (commands : List Command) :
    ∀ {s : Schedule}, s.Sound → I s → I (s.performAll commands) := by
  induction commands with
  | nil => exact fun _ h => h
  | cons command commands ih =>
    intro s hs h
    exact ih (hs.perform command).1 (hI.perform hs h command)

end

/-! ## Following -/

/-- The run of an id in the background, whose driver was put there at an
instant; it had not ended when the clock showed `since`. -/
structure Follows (i : String) (p₀ : Process World Run) (begun since : Nat) (s : Schedule) :
    Prop where
  known : (s.world.store.entry? i).isSome = true
  clock : since ≤ s.world.now
  job : ∀ job ∈ s.jobs, job.id = i →
    Underway punctual (·.now = begun) p₀ job.process s.world
  ended : ∀ run, s.world.background.lookup i = some (some run) → ∃ s₀ s' : World,
    s₀.now = begun ∧ since ≤ s'.now ∧ s'.now ≤ s.world.now ∧ Course punctual p₀ s₀ (.done run) s'

section

variable {α : Type} {i : String} {p₀ : Process World Run} {begun since : Nat} {s t : Schedule}
  {p : Process World α} {q : Outcome World α} {notes : String → Option Cancellation}

/-- The request takes a turn. -/
theorem Follows.request (h : t.Follows i p₀ begun since) (hp : p.Does World.Steps) :
    (t.turn p).2.Follows i p₀ begun since := by
  have hsteps := steps_turn (t := t) hp
  refine ⟨hsteps.known i h.known, hsteps.now.symm ▸ h.clock, ?_, ?_⟩
  · intro job hj hid
    rw [jobs_turn] at hj
    exact (h.job job hj hid).quiet hsteps.now.trans fun _ => .of_now hsteps.tokens hsteps.now
  · exact fun run hrun => hsteps.now.symm ▸ h.ended run (hsteps.fates i run hrun)

/-- The clock jumps. -/
theorem Follows.setClock (h : t.Follows i p₀ begun since) (hp₀ : p₀.wait? = none) {now : Nat}
    (hg : t.Going q) (hcan : t.canGoOn q = false) (hready : t.ready = []) (htired : t.tired = [])
    (hnext : t.next? q.rest = some now) : (t.setClock now).Follows i p₀ begun since := by
  have hnow : t.world.now ≤ (t.setClock now).world.now := Nat.le_max_left _ _
  refine ⟨h.known, Nat.le_trans h.clock hnow, ?_, ?_⟩
  · intro job hj hid
    rw [show (t.setClock now).jobs = t.jobs from jobs_rouse _] at hj
    obtain ⟨wait, hwait, -, hbeside⟩ := hg.beside_clock hcan hready htired hnext hj
    exact (h.job job hj hid).beside hp₀ hwait hbeside
  · intro run hrun
    obtain ⟨s₀, s', hs₀, hsince, hle, hcourse⟩ := h.ended run hrun
    exact ⟨s₀, s', hs₀, hsince, Nat.le_trans hle hnow, hcourse⟩

/-- A job goes where it belongs after its turn. -/
theorem Follows.put (h : s.Follows i p₀ begun since) {job : Job} {outcome : Outcome World Run}
    {access : Access} (hs : outcome.Stands World.signals access s.world)
    (hown : job.id = i → s.world.isDriven i = true ∧
      ∃ s₀, s₀.now = begun ∧ Course punctual p₀ s₀ outcome.rest s.world) :
    (s.put job outcome).Follows i p₀ begun since := by
  rcases outcome.ended_or_goes with ⟨run, rfl⟩ | hgoes
  · refine ⟨h.known, h.clock, ?_, ?_⟩
    · exact fun job' hj hid => (h.job job' hj hid).quiet id fun _ => .of_now (fun _ hf => hf) rfl
    · intro run' hrun'
      rw [show (s.put job (.ended run)).world = s.world.endRun job.id run from rfl] at hrun'
      by_cases hid : job.id = i
      · obtain ⟨hd, s₀, hs₀, hcourse⟩ := hown hid
        rw [hid, World.lookup_endRun, World.isDriven_iff.mp hd] at hrun'
        obtain rfl : run = run' := by simpa using hrun'
        exact ⟨s₀, s.world, hs₀, h.clock, Nat.le_refl _, hcourse⟩
      · rw [World.lookup_endRun_ne (Ne.symm hid)] at hrun'
        exact h.ended run' hrun'
  · have hworld : (s.put job outcome).world = s.world := put_world hgoes
    refine ⟨hworld ▸ h.known, hworld ▸ h.clock, ?_, hworld ▸ h.ended⟩
    intro job' hj hid
    rw [hworld]
    rw [jobs_put hgoes] at hj
    rcases Multiset.mem_cons.mp hj with rfl | hj
    · obtain ⟨-, s₀, hs₀, hcourse⟩ := hown hid
      exact .goes hs₀ hcourse (hs.atStop hgoes)
    · exact h.job job' hj hid

/-- A job takes a turn. -/
theorem Follows.take (h : t.Follows i p₀ begun since) (hcrew : Crew notes t.world t.jobs)
    {job : Job} {ready : List Job} (hready : t.ready = job :: ready) :
    (Schedule.take { t with ready } job).Follows i p₀ begun since := by
  have hmem : ∀ job' ∈ job.unlocked ::ₘ jobs { t with ready }, job' ∈ t.jobs :=
    fun job' hj => jobs_cons hready ▸ hj
  rw [jobs_cons hready] at hcrew
  obtain ⟨outcome, left', v, ht, hjobs, htake⟩ := exists_take { t with ready } job
  have hstands := turn_stands World.signals job.unlocked.process Process.share
    (access { t with ready } job.locks) t.world
  rw [ht] at hstands
  obtain ⟨-, -, k, hk, -⟩ := hcrew.drives_turn ht
  have hm : t.world.Minds job.id v.world := (hcrew.turn ht).1
  rw [htake]
  have haside : v.Follows i p₀ begun since := by
    refine ⟨?_, hm.now.symm ▸ h.clock, ?_, ?_⟩
    · by_cases hid : job.id = i
      · subst hid
        obtain ⟨r, hr, -⟩ := hk.entry
        exact Option.isSome_iff_exists.mpr ⟨_, hr⟩
      · rw [hm.entries i (Ne.symm hid)]
        exact h.known
    · intro job' hj hid
      have hunder := h.job job' (hmem job' (Multiset.mem_cons_of_mem (hjobs ▸ hj))) hid
      exact hunder.quiet hm.now.trans fun _ => .of_now (.of_fired hm.fired) hm.now
    · rw [hm.background, hm.now]
      exact h.ended
  refine haside.put hstands ?_
  rintro rfl
  constructor
  · have hdriven : t.world.isDriven job.unlocked.id = true :=
      hcrew.isDriven (Multiset.mem_cons_self _ _)
    exact (hcrew.isDriven_turn ht _).trans hdriven
  · have hunder := h.job _ (hmem _ (Multiset.mem_cons_self _ _)) rfl
    have hturn := hunder.turn Process.share (access { t with ready } job.locks)
    rwa [show punctual.signals = World.signals from rfl, ht] at hturn

/-- Another run is put into the background. -/
theorem Follows.background (h : s.Follows i p₀ begun since) (e : Engine) (w : Workflow) {run : Run}
    (token : Nat) (hid : run.id ≠ i) : (s.background e w run token).Follows i p₀ begun since := by
  refine ⟨h.known, h.clock, ?_, ?_⟩
  · intro job hj hi
    rw [jobs_background] at hj
    rcases Multiset.mem_cons.mp hj with rfl | hj
    · exact absurd hi hid
    · exact (h.job job hj hi).quiet id fun _ => .of_now (fun _ hf => hf) rfl
  · intro run' hrun'
    refine h.ended run' ?_
    rwa [show (s.background e w run token).world = s.world.leaveRun run.id from rfl,
      World.lookup_leaveRun_ne (Ne.symm hid)] at hrun'

/-- **What is known of a run that is followed lasts.** -/
theorem follows_lasting (hp₀ : p₀.wait? = none) : Lasting i (Follows i p₀ begun since) where
  known h := h.known
  request hdoes h := h.request hdoes
  take hcrew _ hready h := h.take hcrew hready
  round {s} h := ⟨h.known, h.clock, fun job hj => h.job job (s.jobs_again ▸ hj), h.ended⟩
  clock hg hcan hready htired hnext h := h.setClock hp₀ hg hcan hready htired hnext
  background e w _ token hid h := h.background e w token hid

theorem Follows.performAll (hp₀ : p₀.wait? = none) (commands : List Command) {s : Schedule}
    (hs : s.Sound) (h : s.Follows i p₀ begun since) :
    (s.performAll commands).Follows i p₀ begun since :=
  (follows_lasting hp₀).performAll commands hs h

end

end Schedule

end Automation
