/-
Automation.Proofs.Engine.ShelterTheorems — runs that nobody cancels or
forgets.

Of everything that is done in a schedule, only two things concern the entry
of a run in the background and its token, apart from what its own driver
does: that the run is cancelled, and that it is forgotten. All other orders
spare it (`World.LeavesAlone`, `Order.Spares`). Cancelling another run does, too,
since no two entries have one token (`World.Secure`).

So the driver of a run that is neither cancelled nor forgotten takes its
course in the company `shelter`: nobody touches the entry of the run, nobody
fires its token, and the clock does not run past what it waits for. A
schedule in which the run is `Sheltered` stays so by every such order
(`Sheltered.obeyAll`), and when the driver has come to the end of its course
what is stored then goes on to be stored.
-/
import Automation.Proofs.Engine.DeadlineTheorems
import Automation.Proofs.Engine.OrderTheorems

namespace Automation

open Process
open Automation.Json (Value)

/-! ## The run and its token -/

namespace World

/-- The run has the token for itself, and it has not been fired. -/
structure Secure (i : String) (k : Nat) (w : World) : Prop where
  unfired : w.store.isFired k = false
  handed : k < w.store.tokens
  own : ∀ e ∈ w.store.entries, e.token = k → e.run.id = i
  issued : w.series.Issued w.runs i

/-- What is done by others than the driver of the run takes no time and leaves
the run alone. -/
structure LeavesAlone (i : String) (k : Nat) (w w' : World) : Prop extends w.Bides w' where
  secure : w.Secure i k → w'.Secure i k
  entry : w'.store.entry? i = w.store.entry? i
  fate : w'.background.lookup i = w.background.lookup i

variable {i id : String} {k : Nat} {w w₁ w₂ : World} {run : Run}

/-- What drivers do leaves the token to the run; they are drivers of other runs,
or of this one alone. -/
theorem Secure.passes {P : String → Prop} (h : w.Secure i k) (hw : w.Passes P w₁)
    (hP : P i → ∀ j, P j → j = i) : w₁.Secure i k where
  unfired := (hw.isFired k).trans h.unfired
  handed := Nat.lt_of_lt_of_le h.handed hw.tokens
  issued := by
    rw [hw.series, hw.runs]
    exact h.issued
  own e he hk := by
    rcases hw.origin e he with hold | ⟨hid, ⟨hnew, -⟩ | ⟨e₀, he₀, hid₀, htoken⟩⟩
    · exact h.own e hold hk
    · have := h.handed
      omega
    · have hown : e₀.run.id = i := h.own e₀ he₀ (htoken.trans hk)
      exact hP (hown ▸ hid₀) _ hid

namespace LeavesAlone

theorem rfl : w.LeavesAlone i k w :=
  ⟨.rfl, id, Eq.refl _, Eq.refl _⟩

theorem trans (h : w.LeavesAlone i k w₁) (h' : w₁.LeavesAlone i k w₂) : w.LeavesAlone i k w₂ :=
  ⟨h.toBides.trans h'.toBides, h'.secure ∘ h.secure, h'.entry.trans h.entry,
    h'.fate.trans h.fate⟩

/-- What drivers of other runs do. -/
theorem of_passes (h : w.Passes (· ≠ i) w₁) (hnow : w₁.now = w.now) : w.LeavesAlone i k w₁ where
  now := hnow
  tokens := .of_fired h.fired
  secure hw := hw.passes h fun hne => absurd (Eq.refl i) hne
  entry := h.entries i fun hne => hne (Eq.refl i)
  fate := h.fates i fun hne => hne (Eq.refl i)

theorem of_writes (h : w.Writes id w₁) (hid : id ≠ i) : w.LeavesAlone i k w₁ := by
  refine of_passes (h.toPasses.mono ?_) h.still
  rintro _ rfl
  exact hid

theorem saveRun (hid : run.id ≠ i) (w : World) : w.LeavesAlone i k (w.saveRun run).2 :=
  of_passes (.saveRun (P := (· ≠ i)) hid w) (Eq.refl _)

/-- Another run is entered, under a new token. -/
theorem addRun (hid : run.id ≠ i) (w : World) : w.LeavesAlone i k (w.addRun run).2 where
  now := Eq.refl _
  tokens _ hf := hf
  entry := Store.entry?_register_ne hid
  fate := Eq.refl _
  secure hw := by
    refine ⟨hw.unfired, Nat.lt_succ_of_lt hw.handed, fun e he hk => ?_, hw.issued.succ⟩
    rcases Store.mem_place he with rfl | hold
    · have := hw.handed
      have : w.store.tokens = k := hk
      omega
    · exact hw.own e hold hk

/-- Another run is cancelled: its token is another one. -/
theorem cancelRun (hid : id ≠ i) (w : World) : w.LeavesAlone i k (w.cancelRun id).2 where
  toBides := (World.Steps.cancelRun w id).toBides
  entry := Store.entry?_cancel_ne hid w.now
  fate := Eq.refl _
  secure hw := by
    cases hcancel : (w.cancelRun id).1 with
    | false => rwa [World.cancelRun_of_false hcancel]
    | true =>
      obtain ⟨r, hr, hlive⟩ := Store.cancel_fst.mp hcancel
      obtain ⟨e, he, rfl⟩ := Store.exists_entry? hr
      have hother : e.token ≠ k := by
        intro hk
        have hown := hw.own e (List.mem_of_find?_eq_some he) hk
        exact hid ((Store.entry?_id he).symm.trans hown)
      have hstore : (w.cancelRun id).2.store = (w.store.cancel id w.now).2 := Eq.refl _
      have htokens : (w.cancelRun id).2.store.tokens = w.store.tokens :=
        Store.cancel_tokens w.store id w.now
      refine ⟨?_, htokens ▸ hw.handed, fun e' he' hk => ?_, hw.issued⟩
      · have hunfired := hw.unfired
        rw [hstore, Store.cancel_of_live he hlive]
        simp only [Store.isFired, List.contains_cons, Bool.or_eq_false_iff, beq_eq_false_iff_ne]
        exact ⟨Ne.symm hother, hunfired⟩
      · rw [hstore, Store.cancel_of_live he hlive] at he'
        rcases Store.mem_place he' with rfl | hold
        · exact absurd hk hother
        · exact hw.own e' hold hk

/-- Another run is forgotten. -/
theorem removeRun (hid : id ≠ i) (w : World) : w.LeavesAlone i k (w.removeRun id).2 where
  now := Eq.refl _
  tokens := .of_fired (w.store.remove_fired id)
  entry := Store.entry?_remove_ne hid
  fate := Eq.refl _
  secure hw := by
    have hstore : (w.removeRun id).2.store = (w.store.remove id).2 := Eq.refl _
    refine ⟨?_, ?_, fun e he hk => ?_, hw.issued⟩
    · have hunfired := hw.unfired
      rwa [hstore, Store.isFired, Store.remove_fired]
    · rw [hstore, Store.remove_tokens]
      exact hw.handed
    · rw [hstore] at he
      exact hw.own e (Store.mem_remove he) hk

/-- The result of another run is fetched. -/
theorem fetchRun (hid : id ≠ i) (w : World) : w.LeavesAlone i k (w.fetchRun id).2 :=
  ⟨⟨Eq.refl _, fun _ hf => hf⟩, fun hw => ⟨hw.unfired, hw.handed, hw.own, hw.issued⟩, Eq.refl _,
    World.lookup_fetchRun_ne hid.symm⟩

/-- Another run is put into the background. -/
theorem leaveRun (hid : id ≠ i) (w : World) : w.LeavesAlone i k (w.leaveRun id) :=
  ⟨⟨Eq.refl _, fun _ hf => hf⟩, fun hw => ⟨hw.unfired, hw.handed, hw.own, hw.issued⟩, Eq.refl _,
    World.lookup_leaveRun_ne hid.symm⟩

end LeavesAlone

/-! ## Sheltered company -/

/-- What others do beside the driver of a run that leave the run alone, and do
not let the clock run past the driver. -/
structure Shelters (i : String) (k : Nat) (place : Option Wait) (w w' : World) : Prop
    extends w.Beside place w' where
  entry : w'.store.entry? i = w.store.entry? i
  token : w'.store.isFired k = w.store.isFired k
  nothing : ∀ wait, place = some wait → wait.due = .nothing → w'.now = w.now

theorem Crowds.shelters {P : String → Prop} {place : Option Wait} (h : World.Crowds P place w w₁)
    (hi : ¬P i) : w.Shelters i k place w₁ where
  toBeside := h.toBeside
  entry := h.passes.entries i hi
  token := h.passes.isFired k
  nothing := h.nothing

theorem LeavesAlone.shelters (h : w.LeavesAlone i k w₁) (hw : w.Secure i k) (place : Option Wait) :
    w.Shelters i k place w₁ where
  toBeside := .of_now h.tokens h.now
  entry := h.entry
  token := (h.secure hw).unfired.trans hw.unfired.symm
  nothing _ _ _ := h.now

/-- How the driver of a run finds its run when it begins. -/
structure Begins (i : String) (k now : Nat) (run : Run) (w : World) : Prop where
  now : w.now = now
  entry : w.store.entry? i = some ⟨run, k⟩
  unfired : w.store.isFired k = false

theorem Begins.spares {now : Nat} (h : w.Begins i k now run) (hw : w.LeavesAlone i k w₁)
    (hsecure : w.Secure i k) : w₁.Begins i k now run :=
  ⟨hw.now.trans h.now, hw.entry.trans h.entry, (hw.secure hsecure).unfired⟩

end World

/-- Everybody who leaves the run alone. -/
def shelter (i : String) (k : Nat) : Company World where
  signals := World.signals
  others := World.Shelters i k
  others_refl _ _ := ⟨.rfl, rfl, rfl, fun _ _ _ => rfl⟩
  others_trans _ _ _ _ h h' := ⟨h.toBeside.trans h'.toBeside, h'.entry.trans h.entry,
    h'.token.trans h.token,
    fun wait hp hdue => (h'.nothing wait hp hdue).trans (h.nothing wait hp hdue)⟩

/-- The driver of the run begins with this record at this instant, and has come
to a result and a state, in sheltered company. -/
def Process.ComesTo (i : String) (k begun : Nat) (r : Run) (p₀ : Process World Run) (run : Run)
    (s : World) : Prop :=
  ∃ s₀ : World, s₀.Begins i k begun r ∧ Course (shelter i k) p₀ s₀ (.done run) s

/-- What comes by itself is not waited for in vain. -/
theorem Wait.Comes.elim {α : Type} {wait : Wait} (h : wait.Comes) {p : Process World α} {w : World}
    (hwait : p.wait? = some wait) (hasleep : Schedule.isOver w p = false)
    (hnone : wait.instant? = none) : False := by
  rcases h with hdue | ⟨t, hdue⟩
  · cases (Schedule.isOver_of_nothing hwait hdue).symm.trans hasleep
  · unfold Wait.instant? at hnone
    rw [hdue] at hnone
    cases hdeadline : wait.deadline <;> simp [hdeadline] at hnone

namespace Schedule

/-! ## A sheltered run -/

/-- How far the run has come: its driver is the one job for it, or the driver
has come to the end of its course, and what was stored then is still stored. -/
inductive Stage (i : String) (k begun : Nat) (r : Run) (p₀ : Process World Run) (s : Schedule) :
    Prop where
  | driven {job : Job} : s.jobs.filter (·.id = i) = {job} →
      Underway (shelter i k) (World.Begins i k begun r) p₀ job.process s.world →
      s.world.background.lookup i = some none → Stage i k begun r p₀ s
  | ended {run : Run} {s' : World} : s.jobs.filter (·.id = i) = 0 →
      p₀.ComesTo i k begun r run s' →
      s.world.store.entry? i = s'.store.entry? i →
      s.world.background.lookup i = some (some run) ∨ s.world.background.lookup i = none →
      Stage i k begun r p₀ s

/-- The run is left alone, since it was put into the background. -/
structure Sheltered (i : String) (k begun : Nat) (r : Run) (p₀ : Process World Run)
    (s : Schedule) : Prop where
  secure : s.world.Secure i k
  stage : s.Stage i k begun r p₀

section

variable {i : String} {k begun : Nat} {r : Run} {p₀ : Process World Run} {s t : Schedule}

/-- What spares the run, and adds no job for it. -/
theorem Sheltered.spares (h : s.Sheltered i k begun r p₀) (hw : s.world.LeavesAlone i k t.world)
    (hjobs : t.jobs.filter (·.id = i) = s.jobs.filter (·.id = i)) :
    t.Sheltered i k begun r p₀ := by
  refine ⟨hw.secure h.secure, ?_⟩
  cases h.stage with
  | driven hjob hunder hfate =>
    refine .driven (hjobs.trans hjob) (hunder.quiet ?_ fun place => ?_) (hw.fate.trans hfate)
    · exact fun hbegins => hbegins.spares hw h.secure
    · exact hw.shelters h.secure place
  | ended hgone hcomes hstored hfate =>
    refine .ended (hjobs.trans hgone) hcomes (hw.entry.trans hstored) ?_
    rwa [hw.fate]

/-- The clock jumps. -/
theorem Sheltered.setClock {α : Type} {q : Outcome World α} (h : t.Sheltered i k begun r p₀)
    (hp₀ : p₀.wait? = none) {now : Nat} (hg : t.Going q) (hcan : t.canGoOn q = false)
    (hready : t.ready = []) (htired : t.tired = []) (hnext : t.next? q.rest = some now) :
    (t.setClock now).Sheltered i k begun r p₀ := by
  have hjobs : (t.setClock now).jobs = t.jobs := jobs_rouse _
  have hsecure : (t.setClock now).world.Secure i k :=
    ⟨h.secure.unfired, h.secure.handed, h.secure.own, h.secure.issued⟩
  refine ⟨hsecure, ?_⟩
  cases h.stage with
  | @driven job hjob hunder hfate =>
    have hmem : job ∈ t.jobs := by
      have hmem : job ∈ t.jobs.filter (·.id = i) := by simp [hjob]
      exact (Multiset.mem_filter.mp hmem).1
    refine .driven (hjobs ▸ hjob) ?_ hfate
    obtain ⟨wait, hwait, htakes, hbeside⟩ := hg.beside_clock hcan hready htired hnext hmem
    refine hunder.beside hp₀ hwait ⟨hbeside, rfl, rfl, ?_⟩
    rintro _ ⟨⟩ hdue
    exact absurd hdue htakes
  | ended hgone hcomes hstored hfate => exact .ended (hjobs ▸ hgone) hcomes hstored hfate

/-! ### Turns of jobs -/

theorem filter_cons_own {job : Job} (h : job.id = i) (jobs : Multiset Job) :
    (job ::ₘ jobs).filter (·.id = i) = job ::ₘ jobs.filter (·.id = i) :=
  Multiset.filter_cons_of_pos jobs h

theorem filter_cons_other {job : Job} (h : job.id ≠ i) (jobs : Multiset Job) :
    (job ::ₘ jobs).filter (·.id = i) = jobs.filter (·.id = i) :=
  Multiset.filter_cons_of_neg jobs h

/-- A job for another run takes a turn. -/
theorem Sheltered.take_other (h : t.Sheltered i k begun r p₀) {job : Job} {ready : List Job}
    (hready : t.ready = job :: ready) (htame : job.Tame) (hid : job.id ≠ i) :
    (Schedule.take { t with ready } job).Sheltered i k begun r p₀ := by
  refine h.spares (.of_passes ?_ (take_now htame)) ?_
  · exact relates_take (s := { t with ready }) (fun _ => .rfl) (fun _ _ _ => .trans)
      (htame.passes hid)
  · obtain ⟨outcome, left', v, -, hjobs, htake⟩ := exists_take { t with ready } job
    have hunlocked : job.unlocked.id ≠ i := hid
    rw [jobs_cons hready, filter_cons_other hunlocked, htake, ← hjobs]
    rcases outcome.ended_or_goes with ⟨run, rfl⟩ | hgoes
    · rfl
    · have hrest : Job.id { job with process := outcome.rest, locks := false } ≠ i := hid
      rw [jobs_put hgoes]
      exact filter_cons_other hrest _

/-- The driver of the run takes a turn. -/
theorem Sheltered.take_own (h : t.Sheltered i k begun r p₀) {job : Job} {ready : List Job}
    (hready : t.ready = job :: ready) (htame : job.Tame) (hid : job.id = i) :
    (Schedule.take { t with ready } job).Sheltered i k begun r p₀ := by
  have hunlocked : job.unlocked.id = i := hid
  have hcons : t.jobs.filter (·.id = i) =
      job.unlocked ::ₘ (jobs { t with ready }).filter (·.id = i) := by
    rw [jobs_cons hready, filter_cons_own hunlocked]
  cases h.stage with
  | ended hgone => exact absurd (hcons.symm.trans hgone) (Multiset.cons_ne_zero)
  | @driven job' hjob hunder hfate =>
    obtain ⟨rfl, hrest⟩ := (Multiset.singleton_eq_cons_iff _).mp (hjob.symm.trans hcons)
    obtain ⟨outcome, left', v, ht, hjobs, htake⟩ := exists_take { t with ready } job
    have hwrites := htame.turn (access { t with ready } job.locks) t.world
    have hstands := turn_stands World.signals job.unlocked.process Process.share
      (access { t with ready } job.locks) t.world
    obtain ⟨s₀, hbegins, hcourse⟩ :=
      hunder.turn Process.share (access { t with ready } job.locks)
    rw [show (shelter i k).signals = World.signals from rfl, ht] at hcourse
    rw [ht] at hstands
    rw [show job.process = job.unlocked.process from rfl, ht] at hwrites
    have hsecure : v.world.Secure i k := by
      refine h.secure.passes hwrites.toPasses fun _ j hj => ?_
      exact hj.trans hid
    have hfate' : v.world.background.lookup i = some none := hwrites.background ▸ hfate
    rw [htake]
    rcases outcome.ended_or_goes with ⟨run, rfl⟩ | hgoes
    · refine ⟨⟨hsecure.unfired, hsecure.handed, hsecure.own, hsecure.issued⟩, ?_⟩
      have hcomes : p₀.ComesTo i k begun r run v.world := ⟨s₀, hbegins, hcourse⟩
      refine .ended ?_ hcomes rfl (Or.inl ?_)
      · exact hjobs ▸ hrest
      · show (v.world.endRun job.id run).background.lookup i = _
        rw [hid, World.lookup_endRun, hfate']
        rfl
    · have hworld : (v.put job outcome).world = v.world := put_world hgoes
      have hdriver : (v.put job outcome).jobs.filter (·.id = i) =
          { { job with process := outcome.rest, locks := false } } := by
        have hrest' : Job.id { job with process := outcome.rest, locks := false } = i := hid
        rw [jobs_put hgoes, hjobs, filter_cons_own hrest', hrest]
        rfl
      refine ⟨hworld ▸ hsecure, .driven hdriver ?_ (hworld ▸ hfate')⟩
      rw [hworld]
      exact .goes hbegins hcourse (hstands.atStop hgoes)

/-! ### Requests -/

section

variable {α : Type} {p : Process World α} {q : Outcome World α} {n : Nat}

/-- While a request is attended to, no turn of which touches the run. -/
theorem Sheltered.attends (ha : Asks s p) (hidle : s.Idle) (hp₀ : p₀.wait? = none)
    (hp : ∀ q t, Serves s p q t → (∀ a, (t.turn q).1 ≠ .ended a) →
      t.world.LeavesAlone i k (t.turn q).2.world)
    (h : s.Sheltered i k begun r p₀) (hattends : Attends s p q t) :
    t.Sheltered i k begun r p₀ := by
  induction hattends with
  | start => exact h
  | @request q t hattends _ hgoes ih =>
    have hserves := (hattends.serving ha hidle).1.serves
    refine ih.spares (hp q.rest t hserves hgoes) ?_
    rw [jobs_turn]
  | @job q t job ready hattends _ hready ih =>
    have hserves := (hattends.serving ha hidle).1.serves
    have htame : job.Tame := tame_of_mem (ha.tame_serves hserves) (by simp [hready])
    by_cases hid : job.id = i
    · exact ih.take_own hready htame hid
    · exact ih.take_other hready htame hid
  | @round q t _ ih =>
    refine ih.spares .rfl ?_
    rw [jobs_again]
  | clock hattends hcan hready htired hnext ih =>
    exact ih.setClock hp₀ (hattends.serving ha hidle).1.going hcan hready htired hnext

/-- After a request that spares the run. -/
theorem Sheltered.serve (hs : s.Tidy) (hp₀ : p₀.wait? = none) (h : s.Sheltered i k begun r p₀)
    (hp : Servable p n) (hspares : p.Does (World.LeavesAlone i k)) :
    (s.serve n p).2.Sheltered i k begun r p₀ := by
  have ha : Asks s p := ⟨hs.tame, hp.does, n, hp.within⟩
  have hturns : ∀ q t, Serves s p q t → t.world.LeavesAlone i k (t.turn q).2.world := by
    intro q t hserves
    have hq := hserves.does (fun _ => .rfl) (fun _ _ _ => .trans) hspares
    rw [turn_world]
    exact (hq.turn (fun _ => .rfl) (fun _ _ _ => .trans) World.signals _ _ _).1
  have hattends := fun q t => h.attends (q := q) (t := t) ha hs.idle hp₀
    fun q t hserves _ => hturns q t hserves
  have hattended := serve_attends ha hs.idle n
  generalize s.serve n p = result at hattended
  obtain ⟨_ | a, t⟩ := result
  · obtain ⟨q, hq⟩ := hattended
    exact hattends q t hq
  · obtain ⟨q, u, hq, -, hturn⟩ := hattended
    have hlast := hturns q.rest u (hq.serving ha hs.idle).1.serves
    obtain ⟨-, -, hjobs⟩ := turn_eq hturn
    rw [hturn] at hlast
    exact (hattends q u hq).spares hlast (by rw [hjobs])

end

/-- The next run is another one. -/
theorem Sheltered.ne_nextRun (hs : s.Tidy) (h : s.Sheltered i k begun r p₀) :
    s.world.nextRun ≠ i := by
  rw [hs.world.nextRun]
  exact h.secure.issued.ne.symm

/-- Another run is set off, and something is done with it. -/
theorem Sheltered.setOff {α : Type} {e : Engine} {w : Workflow} {payload : Value}
    {options : RunOptions} {stops : Nat} {next : Run × Nat → Process World α} (hs : s.Tidy)
    (hp₀ : p₀.wait? = none) (h : s.Sheltered i k begun r p₀)
    (hp : Servable (e.prepare w payload options >>= next) stops)
    (hnext : ∀ run token, run.id ≠ i → (next (run, token)).Does (World.LeavesAlone i k)) :
    (s.serve stops (e.prepare w payload options >>= next)).2.Sheltered i k begun r p₀ := by
  have hne := h.ne_nextRun hs
  rw [serve_setOff]
  refine h.serve hs hp₀ (hp.enters s.world) fun w' => ⟨.addRun hne w', ?_⟩
  refine Process.Does.bind ?_ (w.does_check ?_ _ _) (w.always_check _ _)
  · rintro ⟨run, token⟩ ⟨-, hid, -⟩
    exact hnext run token (hid.trans_ne hne)
  · intro w' run hid _
    exact .saveRun (hid.trans_ne hne) w'

/-- Another run is put into the background. -/
theorem Sheltered.background (h : s.Sheltered i k begun r p₀) (e : Engine) (w : Workflow)
    {run : Run} (token : Nat) (hid : run.id ≠ i) :
    (s.background e w run token).Sheltered i k begun r p₀ := by
  refine h.spares (.leaveRun hid s.world) ?_
  rw [jobs_background]
  exact filter_cons_other hid _

/-! ### Waiting for the run -/

/-- Until it ends, a request with one stop does nothing. -/
theorem Serves.still {α : Type} {p q : Process World α} {ok : Wait → Prop} (ha : s.Asks p)
    (hp : p.Within ok 1) (hstop : p.AtStop) (h : Serves s p q t)
    (hgoes : ∀ a, (t.turn q).1 ≠ .ended a) : (t.turn q).2.world = t.world := by
  obtain ⟨rfl, -⟩ := h.of_one ha hp hstop
  rw [turn_fst] at hgoes
  rw [turn_world]
  rcases hp.turn_of_one World.signals t.left (t.access t.locks) t.world hstop with ⟨a, h⟩ | ⟨-, h⟩
  · exact absurd h (hgoes a)
  · exact h

/-- Somebody has waited for the run. -/
theorem Sheltered.fetch {α : Type} {request : Process World α} {a : α} {run : Run}
    (h : s.Sheltered i k begun r p₀) (hturn : s.turn request = (.ended a, t))
    (hworld : t.world = (s.world.fetchRun i).2)
    (hrun : s.world.background.lookup i = some (some run)) :
    t.Sheltered i k begun r p₀ ∧ ∃ s', p₀.ComesTo i k begun r run s' := by
  obtain ⟨-, -, hjobs⟩ := turn_eq hturn
  have hstore : t.world.store = s.world.store := hworld ▸ rfl
  have hsecure : t.world.Secure i k := by
    rw [hworld]
    exact ⟨h.secure.unfired, h.secure.handed, h.secure.own, h.secure.issued⟩
  cases h.stage with
  | driven _ _ hfate => cases hfate.symm.trans hrun
  | @ended run' s' hgone hcomes hstored hfate =>
    obtain rfl : run' = run := by
      rcases hfate with hfate | hfate
      · simpa using hfate.symm.trans hrun
      · cases hfate.symm.trans hrun
    refine ⟨⟨hsecure, .ended (hjobs ▸ hgone) hcomes (hstore ▸ hstored) (Or.inr ?_)⟩, s', hcomes⟩
    rw [hworld]
    exact World.lookup_fetchRun

/-- Waiting for the run leaves it alone, and whoever gets a result gets what its
course has come to. -/
theorem Sheltered.join_own (hs : s.Tidy) (hp₀ : p₀.wait? = none)
    (h : s.Sheltered i k begun r p₀) :
    (s.join i).2.Sheltered i k begun r p₀ ∧
      ∀ run, (s.join i).1 = some run → ∃ s', p₀.ComesTo i k begun r run s' := by
  have hasked := Asked.join i
  have ha : Asks s _ := ⟨hs.tame, (Servable.of_asked hasked).does, 1, hasked.within⟩
  have hattends := fun q t => h.attends (q := q) (t := t) ha hs.idle hp₀ fun q t hserves hgoes => by
    rw [hserves.still ha hasked.within trivial hgoes]
    exact .rfl
  have hattended := serve_attends ha hs.idle 1
  rw [join_eq]
  split
  · generalize s.serve 1 _ = result at hattended
    obtain ⟨_ | fetched, t⟩ := result
    · obtain ⟨q, hq⟩ := hattended
      exact ⟨hattends q t hq, fun run hrun => by cases hrun⟩
    · obtain ⟨q, u, hq, -, hturn⟩ := hattended
      obtain ⟨hrest, -⟩ := (hq.serving ha hs.idle).1.serves.of_one ha hasked.within trivial
      rw [hrest] at hturn
      obtain ⟨run, hrun, rfl, hworld⟩ := turn_join hturn
      obtain ⟨hsheltered, hfetched⟩ := (hattends q u hq).fetch hturn hworld hrun
      refine ⟨hsheltered, ?_⟩
      rintro _ ⟨⟩
      exact hfetched
  · exact ⟨h, fun run hrun => by cases hrun⟩

end

/-! ### Orders -/

end Schedule

/-- The order is not to cancel the run, or to forget it. -/
def Order.Spares (i : String) : Order → Prop
  | .tell (.cancel id) => id ≠ i
  | .remove id => id ≠ i
  | _ => True

namespace Schedule

variable {i : String} {k begun : Nat} {r : Run} {p₀ : Process World Run} {s : Schedule}

theorem Sheltered.obey (hs : s.Tidy) (hp₀ : p₀.wait? = none) (h : s.Sheltered i k begun r p₀)
    {order : Order} (horder : order.Spares i) : (s.obey order).Sheltered i k begun r p₀ := by
  cases order with
  | remove id =>
    have hspares : ∀ w, World.LeavesAlone i k w (w.removeRun id).2 := .removeRun horder
    refine h.serve (p := .stepLocked (·.removeRun id)) hs hp₀ ?_ fun w => ⟨hspares w, trivial⟩
    exact ⟨fun w => ⟨(hspares w).toBides, trivial⟩, fun _ => trivial⟩
  | tell command =>
    cases command with
    | advance ms => exact h.serve hs hp₀ (.of_asked (.pass _)) fun _ => trivial
    | cancel id =>
      exact h.serve hs hp₀ (.of_asked (.cancel id)) fun w => ⟨.cancelRun horder w, trivial⟩
    | get id =>
      exact h.serve hs hp₀ (.of_asked (.inspect fun store => store.get? id)) fun _ => ⟨.rfl, trivial⟩
    | execute e w payload options =>
      refine h.setOff hs hp₀ (.of_asked (.execute e w payload options)) fun run token hid => ?_
      exact (e.writes_drive w run token).mono fun _ _ hwrites => .of_writes hwrites hid
    | spawn e w payload options =>
      have hp : Servable (e.prepare w payload options) 2 := .of_asked (.prepare e w payload options)
      rw [← bind_done (e.prepare w payload options)] at hp
      have hserved := h.setOff hs hp₀ hp fun run token _ => trivial
      rw [bind_done] at hserved
      obtain ⟨run, token, t, hserve, hid, -⟩ := hs.prepares e w payload options
      show (s.spawn e w payload options).2.Sheltered i k begun r p₀
      unfold Schedule.spawn
      rw [hserve] at hserved ⊢
      exact hserved.background e w token (hid.trans_ne (h.ne_nextRun hs))
    | join id =>
      by_cases hid : id = i
      · subst hid
        exact (h.join_own hs hp₀).1
      · have hserved := h.serve hs hp₀ (.of_asked (.join id)) fun _ w =>
          ⟨.fetchRun hid w, trivial⟩
        show (s.join id).2.Sheltered i k begun r p₀
        rw [join_eq]
        split
        · exact hserved
        · exact h

/-- **Orders that spare the run leave it sheltered.** -/
theorem Sheltered.obeyAll (hp₀ : p₀.wait? = none) (orders : List Order) : ∀ {s : Schedule},
    s.Tidy → s.Sheltered i k begun r p₀ → (∀ order ∈ orders, order.Spares i) →
      (s.obeyAll orders).Sheltered i k begun r p₀ := by
  induction orders with
  | nil => exact fun _ h _ => h
  | cons order orders ih =>
    intro s hs h horders
    have hfirst := h.obey hs hp₀ (horders order List.mem_cons_self)
    exact ih (hs.obey order) hfirst fun order' ho => horders order' (List.mem_cons_of_mem _ ho)

/-- When the run has ended, what is stored is what was stored then. -/
theorem Sheltered.stored (h : s.Sheltered i k begun r p₀) (hd : s.world.isDriven i = false) :
    ∃ run s', p₀.ComesTo i k begun r run s' ∧ s.world.store.entry? i = s'.store.entry? i := by
  cases h.stage with
  | driven _ _ hfate =>
    rw [World.isDriven_iff.mpr hfate] at hd
    cases hd
  | ended _ hcomes hstored _ => exact ⟨_, _, hcomes, hstored⟩

/-- If nothing can happen any more, the driver has ended, since it waits only for
what comes by itself. -/
theorem Sheltered.not_stuck {α : Type} {q : Process World α} (h : s.Sheltered i k begun r p₀)
    (hp₀ : p₀.wait? = none) {ok : Wait → Prop} {n : Nat} (hwithin : p₀.Within ok n)
    (hok : ∀ wait, ok wait → wait.Comes) (hidle : s.Idle) (hstuck : s.Stuck q) :
    s.world.isDriven i = false := by
  cases h.stage with
  | ended _ _ _ hfate =>
    rcases hfate with hfate | hfate <;> simp [World.isDriven, hfate]
  | @driven job hjob hunder hfate =>
    have hmem : job ∈ s.jobs := by
      have hmem : job ∈ s.jobs.filter (·.id = i) := by simp [hjob]
      exact (Multiset.mem_filter.mp hmem).1
    have hline := hidle.going.line_eq_nil hidle.going.claims.1 hstuck.ready hidle.tired
    obtain ⟨job', hj', rfl⟩ := exists_waiting_of_mem hstuck.ready hidle.tired hline hmem
    obtain ⟨wait, hwait⟩ := Option.isSome_iff_exists.mp (hidle.going.poised.waiting job' hj').2
    have hasleep := hidle.going.asleep job' hj'
    have hcomes : wait.Comes := by
      cases hunder with
      | fresh hq _ =>
        have hwait' : job'.unlocked.process.wait? = some wait := hwait
        rw [hq, hp₀] at hwait'
        cases hwait'
      | goes _ hcourse _ => exact hok wait ((hcourse.within hwithin).wait hwait)
    have hnone := (of_next?_eq_none hstuck.next).2 job' hj' wait hwait
    exact (hcomes.elim hwait hasleep hnone).elim

/-- **Whoever waits for the run is answered**, if its driver waits only for what
comes by itself. -/
theorem Sheltered.joined (hs : s.Tidy) (hp₀ : p₀.wait? = none) (h : s.Sheltered i k begun r p₀)
    {ok : Wait → Prop} {n : Nat} (hwithin : p₀.Within ok n) (hok : ∀ wait, ok wait → wait.Comes)
    (hbehind : s.world.isBehind i = true) :
    ∃ run s', (s.join i).1 = some run ∧ p₀.ComesTo i k begun r run s' := by
  obtain ⟨hafter, hfetches⟩ := h.join_own hs hp₀
  have hasked := Asked.join i
  have ha : Asks s _ := ⟨hs.tame, (Servable.of_asked hasked).does, 1, hasked.within⟩
  have hone := (hs.comes (.of_asked hasked)).of_one ha hasked.within trivial
  have hjoin : s.join i = _ := s.join_eq i
  rw [if_pos hbehind] at hjoin
  rw [hjoin] at hafter hfetches ⊢
  rcases hone with ⟨fetched, t, hsome, -, hturn⟩ | ⟨-, hserves, hidle, hstuck⟩
  · obtain ⟨run, -, rfl, -⟩ := turn_join hturn
    have hanswer : (s.serve 1 (.pause { due := .run i } >>= fun _ =>
        .step (·.fetchRun i))).1.join = some run := by rw [hsome]; rfl
    obtain ⟨s', hcomes⟩ := hfetches run hanswer
    exact ⟨run, s', hanswer, hcomes⟩
  · have hnot := hafter.not_stuck hp₀ hwithin hok hidle hstuck
    have hpasses := (hserves.of_one ha hasked.within trivial).2
    have hdriven := isDriven_of_asleep hstuck.asleep ((hpasses.isBehind i).trans hbehind)
    cases hnot.symm.trans hdriven

end Schedule

end Automation
