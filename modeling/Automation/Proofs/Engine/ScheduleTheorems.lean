/-
Automation.Proofs.Engine.ScheduleTheorems — what happens while a request is
served.

`Serves s p q t`: serving the request `p` has led from the schedule `s` to
`t`, where `q` is left of the request. It is the small steps of `attend`:
turns of the request and of jobs, ends of rounds and jumps of the clock, in
any order. Each of them leaves a crew (`Serves.crew`), and notes that were
taken are never lost.
-/
import Automation.Proofs.Engine.CrewTheorems
import Mathlib.Tactic.Abel

namespace Automation

open Process

/-- The job, without the lock. -/
def Job.unlocked (job : Job) : Job :=
  { job with locks := false }

namespace Schedule

variable {s : Schedule}

/-! ## The jobs of a schedule -/

/-- All jobs, whoever has the lock. -/
def jobs (s : Schedule) : Multiset Job :=
  Multiset.map Job.unlocked (s.ready + s.waiting + s.tired + s.line.filterMap id)

@[simp] theorem handOn_world (s : Schedule) : s.handOn.world = s.world := by
  unfold handOn
  split <;> rfl

@[simp] theorem release_world (s : Schedule) (access : Access) :
    (s.release access).world = s.world := by
  unfold release
  split
  · exact s.handOn_world
  · rfl

@[simp] theorem jobs_handOn (s : Schedule) : s.handOn.jobs = s.jobs := by
  unfold handOn
  split
  · rfl
  · next h => simp [jobs, h]
  · next job line h =>
    have hjob : Job.unlocked { job with locks := true } = job.unlocked := rfl
    simp only [jobs, h, List.filterMap_cons, id_eq, ← Multiset.coe_add, ← Multiset.cons_coe,
      Multiset.map_add, Multiset.map_cons, Multiset.coe_nil, Multiset.map_zero, hjob]
    simp only [← Multiset.singleton_add]
    abel

@[simp] theorem jobs_release (s : Schedule) (access : Access) : (s.release access).jobs = s.jobs := by
  unfold release
  split
  · exact s.jobs_handOn
  · rfl

@[simp] theorem rouse_world (s : Schedule) : s.rouse.world = s.world := rfl

@[simp] theorem jobs_rouse (s : Schedule) : s.rouse.jobs = s.jobs := by
  have hsplit : (↑(s.waiting.partition fun job => isOver s.world job.process).1 +
      ↑(s.waiting.partition fun job => isOver s.world job.process).2 : Multiset Job) =
        s.waiting := by
    rw [List.partition_eq_filter_filter, Multiset.coe_add]
    exact Multiset.coe_eq_coe.mpr (List.filter_append_perm _ _)
  unfold rouse
  simp only [jobs, ← hsplit, ← Multiset.coe_add, Multiset.map_add]
  abel

theorem jobs_cons {job : Job} {ready : List Job} (h : s.ready = job :: ready) :
    s.jobs = job.unlocked ::ₘ jobs { s with ready } := by
  simp only [jobs, h, ← Multiset.cons_coe, Multiset.map_add, Multiset.map_cons]
  simp only [← Multiset.singleton_add]
  abel

theorem jobs_again (s : Schedule) :
    jobs { s with ready := s.ready ++ s.tired, tired := [] } = s.jobs := by
  simp only [jobs, ← Multiset.coe_add, Multiset.map_add, Multiset.coe_nil, Multiset.map_zero]
  abel

theorem jobs_background (s : Schedule) (e : Engine) (w : Workflow) (run : Run) (token : Nat) :
    (s.background e w run token).jobs =
      ⟨run.id, e.drive w run token, Engine.stops w, false⟩ ::ₘ s.jobs := by
  have hjob : Job.unlocked ⟨run.id, e.drive w run token, Engine.stops w, false⟩ =
      ⟨run.id, e.drive w run token, Engine.stops w, false⟩ := rfl
  simp only [jobs, background, ← Multiset.coe_add, Multiset.map_add, Multiset.coe_singleton,
    Multiset.map_singleton, hjob]
  simp only [← Multiset.singleton_add]
  abel

/-- When nobody can take a turn or stands in line, everybody waits. -/
theorem exists_waiting_of_mem {job : Job} (hready : s.ready = []) (htired : s.tired = [])
    (hline : s.line = []) (hj : job ∈ s.jobs) : ∃ job' ∈ s.waiting, job'.unlocked = job := by
  simpa [jobs, hready, htired, hline] using hj

/-! ## Turns -/

/-- Where a job goes after its turn. -/
def put (s : Schedule) (job : Job) : Outcome World Run → Schedule
  | .ended run => { s with world := s.world.endRun job.id run }
  | .waits p => { s with waiting := s.waiting ++ [{ job with process := p, locks := false }] }
  | .yields p locks => { s with tired := s.tired ++ [{ job with process := p, locks }] }
  | .lines p => { s with line := s.line ++ [some { job with process := p, locks := false }] }

section

variable {job : Job} {left' : Nat} {outcome : Outcome World Run} {w' : World}

theorem take_eq (ht : job.process.turn World.signals Process.share (s.access job.locks) s.world =
      ⟨outcome, left', w'⟩) :
    s.take job = (release { s with world := w' } (s.access job.locks)).put job outcome := by
  have htake : s.take job = (release { s with world := (job.process.turn World.signals
      Process.share (s.access job.locks) s.world).state } (s.access job.locks)).put job
        (job.process.turn World.signals Process.share (s.access job.locks) s.world).outcome := by
    unfold take put
    rfl
  rw [htake, ht]

theorem put_world (hgoes : ∀ run, outcome ≠ .ended run) : (s.put job outcome).world = s.world := by
  cases outcome with
  | ended run => exact absurd rfl (hgoes run)
  | waits p => rfl
  | yields p locks => rfl
  | lines p => rfl

theorem jobs_put (hgoes : ∀ run, outcome ≠ .ended run) :
    (s.put job outcome).jobs = { job with process := outcome.rest, locks := false } ::ₘ s.jobs := by
  have hunlocked : ∀ p locks, Job.unlocked { job with process := p, locks } =
      { job with process := p, locks := false } := fun _ _ => rfl
  cases outcome with
  | ended run => exact absurd rfl (hgoes run)
  | waits p =>
    simp only [jobs, put, ← Multiset.coe_add, Multiset.map_add, Multiset.coe_singleton,
      Multiset.map_singleton, hunlocked]
    simp only [← Multiset.singleton_add, Outcome.rest]
    abel
  | yields p locks =>
    simp only [jobs, put, ← Multiset.coe_add, Multiset.map_add, Multiset.coe_singleton,
      Multiset.map_singleton, hunlocked]
    simp only [← Multiset.singleton_add, Outcome.rest]
    abel
  | lines p =>
    simp only [jobs, put, List.filterMap_append, List.filterMap_cons, List.filterMap_nil, id_eq,
      ← Multiset.coe_add, Multiset.map_add, Multiset.coe_singleton, Multiset.map_singleton, hunlocked]
    simp only [← Multiset.singleton_add, Outcome.rest]
    abel

/-- A job takes its turn, and then goes where it belongs. -/
theorem exists_take (s : Schedule) (job : Job) : ∃ outcome left', ∃ v : Schedule,
    job.unlocked.process.turn World.signals Process.share (s.access job.locks) s.world =
      ⟨outcome, left', v.world⟩ ∧ v.jobs = s.jobs ∧ s.take job = v.put job outcome := by
  generalize ht : job.process.turn World.signals Process.share (s.access job.locks) s.world = turn
  obtain ⟨outcome, left', w'⟩ := turn
  refine ⟨outcome, left', release { s with world := w' } (s.access job.locks), ?_, ?_, take_eq ht⟩
  · rw [release_world]
    exact ht
  · rw [jobs_release]
    rfl

/-- A job of the schedule takes a turn. -/
theorem crew_take {notes : String → Option Cancellation}
    (h : Crew notes s.world (job.unlocked ::ₘ s.jobs)) :
    Crew notes (s.take job).world (s.take job).jobs ∧ s.world.Around (s.take job).world ∧
      ((notes job.id).isSome = true → (s.take job).world.services = s.world.services) := by
  obtain ⟨outcome, left', v, ht, hjobs, htake⟩ := s.exists_take job
  have hdriven : s.world.isDriven job.unlocked.id = true :=
    h.isDriven (Multiset.mem_cons_self _ _)
  obtain ⟨hm, hservices⟩ := h.turn ht
  have haround : s.world.Around v.world := .of_minds hm hdriven
  rw [htake]
  rcases outcome.ended_or_goes with ⟨run, rfl⟩ | hgoes
  · have hd' : v.world.isDriven job.id = true :=
      (World.isDriven_congr (by rw [hm.background])).trans hdriven
    have hcrew := h.turn_ended ht
    rw [← hjobs] at hcrew
    exact ⟨hcrew, haround.trans (.endRun hd'), hservices⟩
  · have hcrew := h.turn_goes ht hgoes
    rw [put_world hgoes, jobs_put hgoes, hjobs]
    exact ⟨hcrew, haround, hservices⟩

end

section

variable {α : Type} {request : Process World α}

theorem turn_fst (s : Schedule) (request : Process World α) :
    (s.turn request).1 = (request.turn World.signals s.left (s.access s.locks) s.world).outcome :=
  rfl

/-- Where a request goes after its turn. -/
def putRequest (s : Schedule) (left : Nat) : Outcome World α → Schedule
  | .ended _ => { s with left }
  | .waits _ => s
  | .yields _ locks => { s with locks }
  | .lines _ => { s with line := s.line ++ [none] }

theorem turn_snd (s : Schedule) (request : Process World α) :
    (s.turn request).2 = ((release { s with
      world := (request.turn World.signals s.left (s.access s.locks) s.world).state
      left := Process.share
      locks := false } (s.access s.locks)).putRequest
        (request.turn World.signals s.left (s.access s.locks) s.world).left
        (request.turn World.signals s.left (s.access s.locks) s.world).outcome).rouse := by
  unfold turn putRequest
  rfl

@[simp] theorem putRequest_world (s : Schedule) (left : Nat) (outcome : Outcome World α) :
    (s.putRequest left outcome).world = s.world := by
  cases outcome <;> rfl

@[simp] theorem jobs_putRequest (s : Schedule) (left : Nat) (outcome : Outcome World α) :
    (s.putRequest left outcome).jobs = s.jobs := by
  cases outcome with
  | lines p => simp [jobs, putRequest]
  | ended a => rfl
  | waits p => rfl
  | yields p locks => rfl

theorem turn_world (s : Schedule) (request : Process World α) :
    (s.turn request).2.world =
      (request.turn World.signals s.left (s.access s.locks) s.world).state := by
  rw [turn_snd]
  simp

theorem jobs_turn (s : Schedule) (request : Process World α) : (s.turn request).2.jobs = s.jobs := by
  rw [turn_snd, jobs_rouse, jobs_putRequest, jobs_release]
  rfl

/-- What a request comes to in a turn, and what the turn leaves. -/
theorem turn_eq {outcome : Outcome World α} {t : Schedule} (h : s.turn request = (outcome, t)) :
    (request.turn World.signals s.left (s.access s.locks) s.world).outcome = outcome ∧
      (request.turn World.signals s.left (s.access s.locks) s.world).state = t.world ∧
      t.jobs = s.jobs := by
  rw [← turn_fst, ← turn_world, ← jobs_turn s request, h]
  exact ⟨rfl, rfl, rfl⟩

end

/-! ## Serving a request -/

/-- What serving a request leads to: the schedule then, and what is left of
the request. -/
inductive Serves {α : Type} (s : Schedule) (p : Process World α) :
    Process World α → Schedule → Prop where
  | start : Serves s p p s
  | request {q : Process World α} {t : Schedule} :
      Serves s p q t → (∀ a, (t.turn q).1 ≠ .ended a) → Serves s p (t.turn q).1.rest (t.turn q).2
  | job {q : Process World α} {t : Schedule} {job : Job} {ready : List Job} :
      Serves s p q t → t.ready = job :: ready → Serves s p q ({ t with ready }.take job)
  | round {q : Process World α} {t : Schedule} :
      Serves s p q t → Serves s p q { t with ready := t.ready ++ t.tired, tired := [] }
  | clock {q : Process World α} {t : Schedule} (now : Nat) :
      Serves s p q t → Serves s p q (t.setClock now)

/-- What each turn keeps of a process is kept of a request that is served. -/
theorem Serves.rest {α : Type} {C : Process World α → Prop}
    (hC : ∀ q left access w, C q → C (q.turn World.signals left access w).outcome.rest)
    {p q : Process World α} {t : Schedule} (h : Serves s p q t) (hp : C p) : C q := by
  induction h with
  | start => exact hp
  | request _ _ ih => exact hC _ _ _ _ ih
  | job _ _ ih => exact ih
  | round _ ih => exact ih
  | clock _ _ ih => exact ih

/-- The request is answered: it has ended in a turn. -/
def Answers {α : Type} (s : Schedule) (p : Process World α) (a : α) (t' : Schedule) : Prop :=
  ∃ q t, Serves s p q t ∧ t.turn q = (.ended a, t')

/-- What comes of attending a request: an answer, or a moment at which it has
none. -/
def Served {α : Type} (s : Schedule) (p : Process World α) : Option α × Schedule → Prop
  | (some a, t) => Answers s p a t
  | (none, t) => ∃ q, Serves s p q t

theorem Serves.takeTurns {α : Type} {p q : Process World α} (n : Nat) : ∀ {t : Schedule},
    Serves s p q t → Serves s p q (takeTurns n t) := by
  induction n with
  | zero => exact id
  | succ n ih =>
    intro t h
    unfold Schedule.takeTurns
    cases hready : t.ready with
    | nil => exact h
    | cons job ready => exact ih (h.job hready)

/-- `attend` goes by these steps. -/
theorem served_attend {α : Type} {s₀ : Schedule} {p : Process World α} (fuel : Nat) :
    ∀ {s : Schedule} {request : Outcome World α}, Serves s₀ p request.rest s →
      Served s₀ p (attend fuel request s) := by
  induction fuel with
  | zero => exact fun h => ⟨_, h⟩
  | succ fuel ih =>
    intro s request h
    have hround : ∀ {q : Outcome World α} {t : Schedule}, Serves s₀ p q.rest t →
        Served s₀ p (attend fuel q t.round) := fun h => ih (h.takeTurns turns).round
    unfold attend
    split
    · have hgoes := h.request
      generalize hturn : s.turn request.rest = turn at hgoes
      obtain ⟨outcome, t⟩ := turn
      cases outcome with
      | ended a => exact ⟨request.rest, s, h, hturn⟩
      | waits q => exact hround (hgoes (by simp))
      | yields q locks => exact hround (hgoes (by simp))
      | lines q => exact hround (hgoes (by simp))
    · split
      · cases s.next? request.rest with
        | none => exact ⟨_, h⟩
        | some now => exact ih (h.clock now)
      · exact hround h

theorem served {α : Type} (s : Schedule) (stops : Nat) (p : Process World α) :
    s.Served p (s.serve stops p) := by
  have hstart : Serves s p (Outcome.yields p false).rest s := .start
  exact served_attend _ hstart

/-- Notes are never lost. -/
def Extends (notes notes' : String → Option Cancellation) : Prop :=
  ∀ id c, notes id = some c → notes' id = some c

theorem Extends.trans {notes notes₁ notes₂ : String → Option Cancellation}
    (h : Extends notes notes₁) (h' : Extends notes₁ notes₂) : Extends notes notes₂ :=
  fun id c hc => h' id c (h id c hc)

section

variable {α : Type} {p q : Process World α} {t t' : Schedule} {post : α → World → Unit → Prop}
  {notes : String → Option Cancellation}

/-- The crew after a request has changed the shared state. -/
theorem crew_tends {w w' : World} {js : Multiset Job} (h : Crew notes w js) (ht : w.Tends w') :
    ∃ notes', Extends notes notes' ∧ Crew notes' w' js := by
  obtain ⟨notes', hf, hext, hjobs⟩ := ht.fine notes (placeOf js) h.fine
  refine ⟨notes', hext, h.tends hf ht.driven ?_⟩
  intro job hj k hk
  obtain ⟨r, hr, -⟩ := hk.entry
  rw [← h.placeOf_eq hj]
  exact hjobs job.id k r (h.isDriven hj) hr

/-- **What serving keeps**: there is a crew at every moment, no other runs are
in the background, and what is left of the request keeps to its pact. -/
theorem Serves.crew (h : s.Serves p q t) (hcrew : Crew notes s.world s.jobs)
    (hp : p.Rests requests post s.world ()) :
    ∃ notes', Extends notes notes' ∧ Crew notes' t.world t.jobs ∧
      (∀ id, t.world.isBehind id = true → s.world.isBehind id = true) ∧
      q.Rests requests post t.world () := by
  induction h with
  | start => exact ⟨notes, fun _ _ => id, hcrew, fun _ => id, hp⟩
  | @request q t _ hgoes ih =>
    obtain ⟨notes₁, hext₁, hcrew₁, hbehind, hq⟩ := ih
    have hkeeps := hq.keeps.turn t.left (t.access t.locks)
    obtain ⟨notes₂, hext₂, hcrew₂⟩ := crew_tends hcrew₁ hkeeps.1
    rw [turn_world, jobs_turn]
    exact ⟨notes₂, hext₁.trans hext₂, hcrew₂, fun id hid => hbehind id (hkeeps.1.behind id hid),
      hkeeps.2.rests hgoes⟩
  | @job q t job ready _ hready ih =>
    obtain ⟨notes₁, hext₁, hcrew₁, hbehind, hq⟩ := ih
    rw [jobs_cons hready] at hcrew₁
    obtain ⟨hcrew₂, haround, -⟩ := crew_take (s := { t with ready }) hcrew₁
    exact ⟨notes₁, hext₁, hcrew₂, fun id hid => hbehind id ((haround.behind id).symm.trans hid),
      hq.company haround⟩
  | @round q t _ ih =>
    obtain ⟨notes₁, hext₁, hcrew₁, hbehind, hq⟩ := ih
    exact ⟨notes₁, hext₁, t.jobs_again.symm ▸ hcrew₁, hbehind, hq⟩
  | @clock q t now _ ih =>
    obtain ⟨notes₁, hext₁, hcrew₁, hbehind, hq⟩ := ih
    have hjobs : (t.setClock now).jobs = t.jobs := jobs_rouse _
    refine ⟨notes₁, hext₁, ?_, hbehind, hq.company (.setNow t.world now)⟩
    rw [hjobs]
    exact hcrew₁.setNow now

theorem Answers.crew {a : α} (h : s.Answers p a t') (hcrew : Crew notes s.world s.jobs)
    (hp : p.Rests requests post s.world ()) :
    ∃ notes', Extends notes notes' ∧ Crew notes' t'.world t'.jobs ∧
      (∀ id, t'.world.isBehind id = true → s.world.isBehind id = true) ∧ post a t'.world () := by
  obtain ⟨q, t, hserves, hturn⟩ := h
  obtain ⟨notes₁, hext₁, hcrew₁, hbehind, hq⟩ := hserves.crew hcrew hp
  obtain ⟨htends, hpost⟩ := hq.keeps.turn t.left (t.access t.locks)
  obtain ⟨houtcome, hworld, hjobs⟩ := turn_eq hturn
  rw [show requests.signals = World.signals from rfl, houtcome, hworld] at hpost
  rw [show requests.signals = World.signals from rfl, hworld] at htends
  obtain ⟨notes₂, hext₂, hcrew₂⟩ := crew_tends hcrew₁ htends
  exact ⟨notes₂, hext₁.trans hext₂, hjobs ▸ hcrew₂, fun id hid => hbehind id (htends.behind id hid),
    hpost⟩

end

end Schedule

end Automation
