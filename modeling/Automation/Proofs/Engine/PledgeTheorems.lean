/-
Automation.Proofs.Engine.PledgeTheorems — what a run in the background comes
to, whatever is done meanwhile.

For a process, what happens in a schedule is `exact` company: fired tokens
stay fired, and the clock moves only while the process waits for something
that takes time, and then not past it. A process that is `Pledged` to
something comes to it in such company.

A run in the background whose driver is pledged to something comes to it,
whatever is done after it was put there (`pledges_lasting`), and whoever
waits for it gets a result that is as it was pledged (`Pledges.join`). This
holds of runs that are cancelled, too; of a run that nobody cancels or
forgets more can be said (`Sheltered`).
-/
import Automation.Proofs.Engine.RoundTheorems
import Automation.Proofs.Engine.DeadlineTheorems
import Automation.Proofs.Engine.OrderTheorems

namespace Automation

open Process
open Automation.Json (Value)

/-! ## Exact company -/

/-- What happens beside a process: at a wait for nothing, the clock stands
still. -/
structure World.Keeps (place : Option Wait) (s s' : World) : Prop extends s.Beside place s' where
  nothing : ∀ wait, place = some wait → wait.due = .nothing → s'.now = s.now

/-- The exact company. -/
def exact : Company World where
  signals := World.signals
  others := World.Keeps
  others_refl _ _ := ⟨.rfl, fun _ _ _ => rfl⟩
  others_trans _ _ _ _ h h' := ⟨h.toBeside.trans h'.toBeside,
    fun wait hp hdue => (h'.nothing wait hp hdue).trans (h.nothing wait hp hdue)⟩

theorem Company.Exact.of_keeps {c : Company World} (hsignals : c.signals = World.signals)
    (hothers : ∀ place s s', c.others place s s' → s.Keeps place s') : c.Exact where
  lock _ _ ho := (hothers _ _ _ ho).lock rfl
  wait wait _ _ t ho ht := (hothers _ _ _ ho).wait wait t rfl ht
  signals := hsignals
  tokens _ _ _ ho := (hothers _ _ _ ho).tokens
  forward _ _ _ ho := (hothers _ _ _ ho).now
  nothing wait _ _ ho hdue := (hothers _ _ _ ho).nothing wait rfl hdue

theorem exact_exact : exact.Exact :=
  .of_keeps rfl fun _ _ _ => id

theorem keeps_of_crowd {P : String → Prop} {place : Option Wait} {s s' : World}
    (ho : (crowd P).others place s s') : s.Keeps place s' :=
  ⟨ho.toBeside, ho.nothing⟩

/-- The jobs are exact company. -/
theorem crowd_exact (P : String → Prop) : (crowd P).Exact :=
  .of_keeps rfl fun _ _ _ => keeps_of_crowd

/-- Where no time passes and no token is forgotten, all is as it may be. -/
theorem World.Bides.keeps {s s' : World} (h : s.Bides s') (place : Option Wait) :
    s.Keeps place s' :=
  ⟨.of_now h.tokens h.now, fun _ _ _ => h.now⟩

/-! ## Pledged processes -/

/-- From this state on, and from every state like it, the process comes only to
results that are `ok`. -/
def Process.Pledged {α : Type} (ok : α → Prop) (p : Process World α) (s : World) : Prop :=
  ∀ s', s.Bides s' → p.Holds exact (fun _ => True) (fun a _ => ok a) s'

namespace Process.Pledged

variable {α : Type} {ok : α → Prop} {p : Process World α} {s s' : World}

theorem bides (h : p.Pledged ok s) (hs : s.Bides s') : p.Pledged ok s' :=
  fun t ht => h t (hs.trans ht)

/-- A process that stands somewhere stands there in like states, too. -/
theorem of_stop (hstop : p.AtStop) (h : p.Holds exact (fun _ => True) (fun a _ => ok a) s) :
    p.Pledged ok s :=
  fun _ ht => h.company hstop (ht.keeps _)

/-- The process takes a turn. -/
theorem turn (h : p.Pledged ok s) (left : Nat) (access : Access) :
    (p.turn World.signals left access s).outcome.rest.Holds exact (fun _ => True)
      (fun a _ => ok a) (p.turn World.signals left access s).state :=
  (Course.turn (c := exact) left access .start).holds (h s .rfl)

end Process.Pledged

namespace Schedule

/-- The driver of the run in the background is pledged to what is `ok`, and so is
its result. -/
structure Pledges (i : String) (ok : Run → Prop) (s : Schedule) : Prop where
  job : ∀ job ∈ s.jobs, job.id = i → job.process.Pledged ok s.world
  ended : ∀ run, s.world.background.lookup i = some (some run) → ok run

section

variable {α : Type} {i : String} {ok : Run → Prop} {s t : Schedule} {p : Process World α}
  {q : Outcome World α}

/-- The request takes a turn. -/
theorem Pledges.request (h : t.Pledges i ok) (hp : p.Does World.Steps) :
    (t.turn p).2.Pledges i ok := by
  have hsteps := steps_turn (t := t) hp
  refine ⟨fun job hj hid => ?_, fun run hrun => h.ended run (hsteps.fates i run hrun)⟩
  rw [jobs_turn] at hj
  exact (h.job job hj hid).bides hsteps.toBides

/-- The clock jumps. -/
theorem Pledges.setClock (h : t.Pledges i ok) {now : Nat} (hg : t.Going q)
    (hcan : t.canGoOn q = false) (hready : t.ready = []) (htired : t.tired = [])
    (hnext : t.next? q.rest = some now) : (t.setClock now).Pledges i ok := by
  refine ⟨fun job hj hid => ?_, h.ended⟩
  rw [show (t.setClock now).jobs = t.jobs from jobs_rouse _] at hj
  have hpledged := h.job job hj hid t.world .rfl
  obtain ⟨wait, hwait, htakes, hbeside⟩ := hg.beside_clock hcan hready htired hnext hj
  have hstop : job.process.AtStop := atStop_of_wait? (Option.isSome_iff_exists.mpr ⟨wait, hwait⟩)
  refine .of_stop hstop (hpledged.company hstop ?_)
  rw [hwait]
  refine ⟨hbeside, ?_⟩
  rintro _ ⟨⟩ hdue
  exact absurd hdue htakes

/-- A job goes where it belongs after its turn. -/
theorem Pledges.put (h : s.Pledges i ok) {job : Job} {outcome : Outcome World Run}
    {access : Access} (hs : outcome.Stands World.signals access s.world)
    (hown : job.id = i →
      outcome.rest.Holds exact (fun _ => True) (fun run _ => ok run) s.world) :
    (s.put job outcome).Pledges i ok := by
  rcases outcome.ended_or_goes with ⟨run, rfl⟩ | hgoes
  · refine ⟨fun job' hj hid => (h.job job' hj hid).bides ⟨rfl, fun _ hf => hf⟩, ?_⟩
    intro run' hrun'
    rw [show (s.put job (.ended run)).world = s.world.endRun job.id run from rfl] at hrun'
    by_cases hid : job.id = i
    · subst hid
      rw [World.lookup_endRun] at hrun'
      obtain ⟨_, -, hrun'⟩ := Option.map_eq_some_iff.mp hrun'
      obtain rfl : run = run' := Option.some.inj hrun'
      exact (hown rfl).2
    · rw [World.lookup_endRun_ne (Ne.symm hid)] at hrun'
      exact h.ended run' hrun'
  · have hworld : (s.put job outcome).world = s.world := put_world hgoes
    refine ⟨fun job' hj hid => ?_, hworld ▸ h.ended⟩
    rw [hworld]
    rw [jobs_put hgoes] at hj
    rcases Multiset.mem_cons.mp hj with rfl | hj
    · exact .of_stop (hs.atStop hgoes) (hown hid)
    · exact h.job job' hj hid

/-- A job takes a turn. -/
theorem Pledges.take (h : t.Pledges i ok) {job : Job} {ready : List Job}
    (hready : t.ready = job :: ready) (htame : job.Tame) :
    (Schedule.take { t with ready } job).Pledges i ok := by
  have hmem : ∀ job' ∈ job.unlocked ::ₘ jobs { t with ready }, job' ∈ t.jobs :=
    fun job' hj => jobs_cons hready ▸ hj
  obtain ⟨outcome, left', v, ht, hjobs, htake⟩ := exists_take { t with ready } job
  have hwrites := htame.turn (access { t with ready } job.locks) t.world
  rw [show job.process = job.unlocked.process from rfl, ht] at hwrites
  have hstands := turn_stands World.signals job.unlocked.process Process.share
    (access { t with ready } job.locks) t.world
  rw [ht] at hstands
  have haside : v.Pledges i ok := by
    refine ⟨fun job' hj hid => ?_, hwrites.background ▸ h.ended⟩
    have hpledged := h.job job' (hmem job' (Multiset.mem_cons_of_mem (hjobs ▸ hj))) hid
    exact hpledged.bides ⟨hwrites.still, .of_fired hwrites.fired⟩
  rw [htake]
  refine haside.put hstands fun hid => ?_
  have hpledged := h.job _ (hmem _ (Multiset.mem_cons_self _ _)) hid
  have hturn := hpledged.turn Process.share (access { t with ready } job.locks)
  rwa [ht] at hturn

/-- Another run is put into the background. -/
theorem Pledges.background (h : s.Pledges i ok) (e : Engine) (w : Workflow) {run : Run}
    (token : Nat) (hid : run.id ≠ i) : (s.background e w run token).Pledges i ok := by
  refine ⟨fun job hj hi => ?_, fun run' hrun' => h.ended run' ?_⟩
  · rw [jobs_background] at hj
    rcases Multiset.mem_cons.mp hj with rfl | hj
    · exact absurd hi hid
    · exact (h.job job hj hi).bides ⟨rfl, fun _ hf => hf⟩
  · rwa [show (s.background e w run token).world = s.world.leaveRun run.id from rfl,
      World.lookup_leaveRun_ne (Ne.symm hid)] at hrun'

/-! ## Commands -/

variable {p₀ : Process World Run} {begun since : Nat}

/-- **What a run in the background is pledged to** does not change by what is
done. -/
theorem pledges_lasting (hp₀ : p₀.wait? = none) :
    Lasting i fun s => s.Follows i p₀ begun since ∧ s.Pledges i ok where
  known h := h.1.known
  request hdoes h := ⟨h.1.request hdoes, h.2.request hdoes⟩
  take hcrew htame hready h := ⟨h.1.take hcrew hready, h.2.take hready htame⟩
  round {s} h := by
    refine ⟨(follows_lasting hp₀).round h.1, fun job hj => ?_, h.2.ended⟩
    exact h.2.job job (s.jobs_again ▸ hj)
  clock hg hcan hready htired hnext h :=
    ⟨h.1.setClock hp₀ hg hcan hready htired hnext, h.2.setClock hg hcan hready htired hnext⟩
  background e w _ token hid h := ⟨h.1.background e w token hid, h.2.background e w token hid⟩

/-- **Whoever waits for the run** gets a result that is as it was pledged. -/
theorem Pledges.join (hs : s.Sound) (hp₀ : p₀.wait? = none) (hf : s.Follows i p₀ begun since)
    (h : s.Pledges i ok) {run : Run} (hrun : (s.join i).1 = some run) : ok run := by
  have hasked := Asked.join i
  have ha := hs.asks hasked
  have hattended := serve_attends ha hs.idle 1
  rw [join_eq] at hrun
  split at hrun
  · generalize s.serve 1 _ = result at hattended hrun
    obtain ⟨_ | fetched, t⟩ := result
    · cases hrun
    · obtain ⟨q, u, hattends, -, hturn⟩ := hattended
      obtain ⟨hrest, -⟩ := (hattends.serving ha hs.idle).1.serves.of_one ha hasked.within trivial
      rw [hrest] at hturn
      obtain ⟨run', hended, rfl, -⟩ := turn_join hturn
      obtain rfl : run' = run := Option.some.inj hrun
      exact ((pledges_lasting hp₀).attends hs hasked ⟨hf, h⟩ hattends).1.2.ended run' hended
  · cases hrun

end

/-- A run is put into the background whose driver comes to what is `ok`, if it
begins at once. -/
theorem Sound.pledges {s t : Schedule} (hs : s.Sound) {e : Engine} {w : Workflow} {payload : Value}
    {options : RunOptions} {run : Run} {token : Nat} {ok : Run → Prop}
    (h : s.serve 2 (e.prepare w payload options) = (some (run, token), t))
    (hok : ∀ s' : World, s'.now = t.world.now →
      (e.drive w run token).Holds exact (fun _ => True) (fun run _ => ok run) s') :
    (t.background e w run token).Pledges run.id ok := by
  obtain ⟨notes, hcrew⟩ := hs.crew
  have hcomes := (hs.serve (.prepare e w payload options)).1
  rw [h] at hcomes
  obtain ⟨notes', -, hcrew', -, hapart, -⟩ :=
    hcomes.1.crew hcrew (rests_prepare e w payload options hcrew.fine.free)
  have hworld : (t.background e w run token).world = t.world.leaveRun run.id := rfl
  refine ⟨fun job hj hid => ?_, fun run' hrun' => ?_⟩
  · rw [jobs_background] at hj
    rcases Multiset.mem_cons.mp hj with rfl | hj
    · exact fun s' hs' => hok s' hs'.now
    · -- nobody drives the run before
      have hdriven := World.isDriven_iff.mp (hid ▸ hcrew'.isDriven hj)
      cases hapart.lookup.symm.trans hdriven
  · rw [hworld, World.lookup_leaveRun hapart.lookup] at hrun'
    cases hrun'

end Schedule

end Automation
