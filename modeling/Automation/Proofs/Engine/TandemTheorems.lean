/-
Automation.Proofs.Engine.TandemTheorems — two schedules in tandem.

Two schedules stand alike if their worlds are alike and the same jobs
stand in the same places, each of them like the other one
(`Schedule.Alike`). What a schedule does next depends on the signals of the
world, on where everybody stands and on what the jobs have come to; all
this is the same in two schedules that stand alike, as long as their worlds
give the same signals (`Likeness.Worldly`). So two requests that go alike
are served in tandem: turn for turn, round for round and jump for jump, to
answers that are alike or to none (`Schedule.Alike.serve`).

A schedule that stands like itself, where like worlds are equal worlds with
an invariant, keeps the invariant while it serves a request.
-/
import Automation.Proofs.Engine.LikenessTheorems
import Automation.Proofs.Engine.AttendTheorems
import Mathlib.Data.List.Forall2

namespace Automation

open Process

variable {l : Likeness World World} {results : String → Run → Run → Prop} {α β : Type}
  {answers : α → β → Prop}

/-- Worlds that are alike give the same signals and stay alike as time passes
and runs in the background end; `results` says which results are alike. -/
structure Likeness.Worldly (l : Likeness World World) (results : String → Run → Run → Prop) :
    Prop where
  waits : ∀ {wait wait'}, l.waits wait wait' → wait = wait'
  steps : ∀ {s t s' t'}, l.states s t → l.steps s t s' t' → l.states s' t'
  signals : ∀ {s t}, l.states s t → s.signals = t.signals
  clock : ∀ {s t} (now : Nat), l.states s t → l.states { s with now } { t with now }
  endRun : ∀ {s t id r r'}, l.states s t → results id r r' →
    l.states (s.endRun id r) (t.endRun id r')

/-- The same worlds and waits, with other steps that lead to worlds that are
alike. -/
theorem Likeness.Worldly.withSteps {steps : World → World → World → World → Prop}
    (h : l.Worldly results)
    (hsteps : ∀ {s t s' t'}, l.states s t → steps s t s' t' → l.states s' t') :
    Likeness.Worldly { l with steps } results :=
  ⟨h.waits, hsteps, h.signals, h.clock, h.endRun⟩

/-- Equal worlds with an invariant that steps, time and the ends of runs keep. -/
theorem Likeness.self_worldly {inv : World → Prop} {ok : World → World → Prop}
    (hok : ∀ s s', inv s → ok s s' → inv s') (hclock : ∀ s now, inv s → inv { s with now })
    (hend : ∀ s id r, inv s → inv (s.endRun id r)) :
    (Likeness.self inv ok).Worldly fun _ => Eq where
  waits h := h
  steps := by
    rintro s _ s' _ ⟨rfl, hs⟩ ⟨rfl, h⟩
    exact ⟨rfl, hok s s' hs h⟩
  signals := by
    rintro s _ ⟨rfl, -⟩
    rfl
  clock := by
    rintro s _ now ⟨rfl, hs⟩
    exact ⟨rfl, hclock s now hs⟩
  endRun := by
    rintro s _ id r _ ⟨rfl, hs⟩ rfl
    exact ⟨rfl, hend s id r hs⟩

theorem Likeness.Worldly.steady (h : l.Worldly results) : l.Steady World.signals World.signals where
  steps := h.steps
  wake? hwait hs := by rw [h.waits hwait, h.signals hs]
  price hwait wake := by rw [h.waits hwait]

theorem isEmpty_eq {γ δ : Type} {r : γ → δ → Prop} {xs : List γ} {ys : List δ}
    (h : List.Forall₂ r xs ys) : xs.isEmpty = ys.isEmpty := by
  cases h <;> rfl

/-- Two jobs for one run that go alike. -/
structure Job.Alike (l : Likeness World World) (results : String → Run → Run → Prop)
    (job job' : Job) : Prop where
  id : job.id = job'.id
  stops : job.stops = job'.stops
  locks : job.locks = job'.locks
  process : job.process.Alike l (results job.id) job'.process

/-- Where a job has come to, another one that goes alike has come, too. -/
theorem Job.Alike.at {job job' : Job} (h : job.Alike l results job') {p p' : Process World Run}
    (hp : p.Alike l (results job.id) p') (locks : Bool) :
    Job.Alike l results { job with process := p, locks } { job' with process := p', locks } :=
  ⟨h.id, h.stops, rfl, hp⟩

/-- Two schedules that stand alike. -/
structure Schedule.Alike (l : Likeness World World) (results : String → Run → Run → Prop)
    (s s' : Schedule) : Prop where
  world : l.states s.world s'.world
  left : s.left = s'.left
  locks : s.locks = s'.locks
  ready : List.Forall₂ (Job.Alike l results) s.ready s'.ready
  waiting : List.Forall₂ (Job.Alike l results) s.waiting s'.waiting
  tired : List.Forall₂ (Job.Alike l results) s.tired s'.tired
  line : List.Forall₂ (Option.Rel (Job.Alike l results)) s.line s'.line

/-- Processes that go alike have come to the same wait, if to any. -/
theorem Process.Alike.wait?_eq (hl : l.Worldly results) {p : Process World α}
    {p' : Process World β} (h : p.Alike l answers p') : p.wait? = p'.wait? := by
  cases p <;> cases p' <;> first | exact h.elim | rfl | skip
  exact congrArg some (hl.waits h.1)

theorem Process.Alike.isOver_eq (hl : l.Worldly results) {w w' : World} (hw : l.states w w')
    {p : Process World α} {p' : Process World β} (h : p.Alike l answers p') :
    Schedule.isOver w p = Schedule.isOver w' p' := by
  unfold Schedule.isOver
  rw [h.wait?_eq hl, hl.signals hw]

namespace Schedule.Alike

variable {s s' : Schedule}

/-- A schedule stands like itself if each of its jobs goes like itself. -/
theorem of_jobs (hworld : l.states s.world s.world)
    (h : ∀ job ∈ s.jobs, job.Alike l results job) : s.Alike l results s := by
  have hjob : ∀ job ∈ s.ready ++ s.waiting ++ s.tired ++ s.line.filterMap id,
      job.Alike l results job := by
    intro job hj
    have hunlocked := h job.unlocked (Multiset.mem_map_of_mem _ (Multiset.mem_coe.mpr hj))
    exact ⟨rfl, rfl, rfl, hunlocked.process⟩
  simp only [List.mem_append, List.mem_filterMap, id_eq] at hjob
  refine ⟨hworld, rfl, rfl, List.forall₂_same.mpr ?_, List.forall₂_same.mpr ?_,
    List.forall₂_same.mpr ?_, List.forall₂_same.mpr ?_⟩
  · exact fun job hj => hjob job (Or.inl (Or.inl (Or.inl hj)))
  · exact fun job hj => hjob job (Or.inl (Or.inl (Or.inr hj)))
  · exact fun job hj => hjob job (Or.inl (Or.inr hj))
  · rintro (_ | job) hj
    · exact .none
    · exact .some (hjob job (Or.inr ⟨_, hj, rfl⟩))

/-- Jobs that go alike do so with fewer worlds alike, too. -/
theorem restrict {l' : Likeness World World} (h : s.Alike l results s')
    (hworld : l'.states s.world s'.world) (hstates : ∀ s t, l'.states s t → l.states s t)
    (hsteps : ∀ s t s' t', l'.states s t → l.steps s t s' t' → l'.steps s t s' t')
    (hwaits : ∀ wait wait', l.waits wait wait' → l'.waits wait wait') :
    s.Alike l' results s' := by
  have hjob : ∀ {job job'}, Job.Alike l results job job' → Job.Alike l' results job job' :=
    fun hjob => ⟨hjob.id, hjob.stops, hjob.locks, hjob.process.restrict hstates hsteps hwaits⟩
  refine ⟨hworld, h.left, h.locks, h.ready.imp fun _ _ => hjob, h.waiting.imp fun _ _ => hjob,
    h.tired.imp fun _ _ => hjob, h.line.imp ?_⟩
  rintro _ _ (⟨hsome⟩ | _)
  · exact .some (hjob hsome)
  · exact .none

/-! ## The lock -/

theorem access_eq (h : s.Alike l results s') (locks : Bool) : s.access locks = s'.access locks := by
  have hany : ∀ {jobs jobs' : List Job}, List.Forall₂ (Job.Alike l results) jobs jobs' →
      jobs.any (·.locks) = jobs'.any (·.locks) := by
    intro jobs jobs' hjobs
    induction hjobs with
    | nil => rfl
    | cons hjob _ ih => rw [List.any_cons, List.any_cons, hjob.locks, ih]
  unfold access
  rw [isEmpty_eq h.line, h.locks, hany (List.rel_append h.ready h.tired)]

theorem handOn (h : s.Alike l results s') : s.handOn.Alike l results s'.handOn := by
  obtain ⟨_, _, _, _, _, _, line⟩ := s
  obtain ⟨_, _, _, _, _, _, line'⟩ := s'
  obtain ⟨world, left, locks, ready, waiting, tired, hline⟩ := h
  cases hline with
  | nil => exact ⟨world, left, locks, ready, waiting, tired, .nil⟩
  | cons hfirst hrest =>
    cases hfirst with
    | none => exact ⟨world, left, rfl, ready, waiting, tired, hrest⟩
    | some hjob =>
      have hreads := List.rel_append ready (.cons (hjob.at hjob.process true) .nil)
      exact ⟨world, left, locks, hreads, waiting, tired, hrest⟩

theorem release (h : s.Alike l results s') (before : Access) :
    (s.release before).Alike l results (s'.release before) := by
  unfold Schedule.release
  split
  · exact h.handOn
  · exact h

/-! ## Turns of jobs -/

theorem setWorld (h : s.Alike l results s') {w w' : World} (hw : l.states w w') :
    Schedule.Alike l results { s with world := w } { s' with world := w' } :=
  ⟨hw, h.left, h.locks, h.ready, h.waiting, h.tired, h.line⟩

theorem put (hl : l.Worldly results) (h : s.Alike l results s') {job job' : Job}
    (hjob : job.Alike l results job') {outcome outcome' : Outcome World Run}
    (hout : outcome.Alike l (results job.id) outcome') :
    (s.put job outcome).Alike l results (s'.put job' outcome') := by
  cases hout with
  | ended hrun =>
    refine h.setWorld ?_
    rw [← hjob.id]
    exact hl.endRun h.world hrun
  | waits hp =>
    have hwaits := List.rel_append h.waiting (.cons (hjob.at hp false) .nil)
    exact ⟨h.world, h.left, h.locks, h.ready, hwaits, h.tired, h.line⟩
  | yields locks hp =>
    have htired := List.rel_append h.tired (.cons (hjob.at hp locks) .nil)
    exact ⟨h.world, h.left, h.locks, h.ready, h.waiting, htired, h.line⟩
  | lines hp =>
    have hline := List.rel_append h.line (.cons (.some (hjob.at hp false)) .nil)
    exact ⟨h.world, h.left, h.locks, h.ready, h.waiting, h.tired, hline⟩

/-- Jobs that go alike take their turns alike. -/
theorem take (hl : l.Worldly results) (h : s.Alike l results s') {job job' : Job}
    (hjob : job.Alike l results job') : (s.take job).Alike l results (s'.take job') := by
  have hturn := hjob.process.turn hl.steady Process.share (s.access job.locks) h.world
  have haccess : s'.access job'.locks = s.access job.locks := by
    rw [h.access_eq, hjob.locks]
  have htake := take_eq (s := s) (Eq.refl (job.process.turn World.signals Process.share
    (s.access job.locks) s.world))
  have htake' := take_eq (s := s') (Eq.refl (job'.process.turn World.signals Process.share
    (s'.access job'.locks) s'.world))
  rw [htake, htake', haccess]
  exact put hl ((h.setWorld hturn.state).release _) hjob hturn.outcome

theorem takeTurns (hl : l.Worldly results) : ∀ (n : Nat) {s s' : Schedule},
    s.Alike l results s' → (takeTurns n s).Alike l results (takeTurns n s')
  | 0, _, _, h => h
  | n + 1, s, s', h => by
    obtain ⟨_, _, _, ready, _, _, _⟩ := s
    obtain ⟨_, _, _, ready', _, _, _⟩ := s'
    obtain ⟨world, left, locks, hready, waiting, tired, line⟩ := h
    cases hready with
    | nil => exact ⟨world, left, locks, .nil, waiting, tired, line⟩
    | cons hjob hrest =>
      refine takeTurns hl n (take hl ?_ hjob)
      exact ⟨world, left, locks, hrest, waiting, tired, line⟩

theorem round (hl : l.Worldly results) (h : s.Alike l results s') :
    s.round.Alike l results s'.round := by
  have hturns := takeTurns hl turns h
  exact ⟨hturns.world, hturns.left, hturns.locks, List.rel_append hturns.ready hturns.tired,
    hturns.waiting, .nil, hturns.line⟩

/-! ## The clock -/

theorem rouse (hl : l.Worldly results) (h : s.Alike l results s') :
    s.rouse.Alike l results s'.rouse := by
  have hover : ∀ {job job' : Job}, job.Alike l results job' →
      isOver s.world job.process = isOver s'.world job'.process :=
    fun hjob => hjob.process.isOver_eq hl h.world
  rw [rouse_eq, rouse_eq]
  refine ⟨h.world, h.left, h.locks, List.rel_append h.ready ?_, ?_, h.tired, h.line⟩
  · exact List.rel_filter (fun _ _ hjob => by simp only [hover hjob]) h.waiting
  · exact List.rel_filter (fun _ _ hjob => by simp only [hover hjob]) h.waiting

theorem setClock (hl : l.Worldly results) (h : s.Alike l results s') (now : Nat) :
    (s.setClock now).Alike l results (s'.setClock now) := by
  have hnow : s.world.now = s'.world.now := congrArg Signals.now (hl.signals h.world)
  unfold Schedule.setClock
  rw [hnow]
  exact (h.setWorld (hl.clock _ h.world)).rouse hl

theorem next?_eq (hl : l.Worldly results) (h : s.Alike l results s') {p : Process World α}
    {p' : Process World β} (hp : p.wait? = p'.wait?) : s.next? p = s'.next? p' := by
  have hjobs : ∀ {jobs jobs' : List Job}, List.Forall₂ (Job.Alike l results) jobs jobs' →
      (jobs.map fun job => job.process.wait?.bind (·.instant?)) =
        jobs'.map fun job => job.process.wait?.bind (·.instant?) := by
    intro jobs jobs' hjobs
    induction hjobs with
    | nil => rfl
    | cons hjob _ ih => rw [List.map_cons, List.map_cons, hjob.process.wait?_eq hl, ih]
  unfold next?
  dsimp only
  rw [hp, hjobs h.waiting]

/-! ## Serving a request -/

theorem putRequest {l' : Likeness World World} (h : s.Alike l results s') (left : Nat)
    {outcome : Outcome World α} {outcome' : Outcome World β}
    (hout : outcome.Alike l' answers outcome') :
    (s.putRequest left outcome).Alike l results (s'.putRequest left outcome') := by
  cases hout with
  | ended _ => exact ⟨h.world, rfl, h.locks, h.ready, h.waiting, h.tired, h.line⟩
  | waits _ => exact h
  | yields locks _ => exact ⟨h.world, h.left, rfl, h.ready, h.waiting, h.tired, h.line⟩
  | lines _ =>
    exact ⟨h.world, h.left, h.locks, h.ready, h.waiting, h.tired,
      List.rel_append h.line (.cons .none .nil)⟩

theorem rest {request : Outcome World α} {request' : Outcome World β}
    (hrequest : request.Alike l answers request') :
    request.rest.Alike l answers request'.rest := by
  cases hrequest <;> assumption

section

-- what a request may do is another matter than what jobs may do
variable {steps : World → World → World → World → Prop} (hl : l.Worldly results)
  (hsteps : ∀ {s t s' t'}, l.states s t → steps s t s' t' → l.states s' t')

include hl hsteps

/-- Requests that go alike take their turns alike. -/
theorem turn (h : s.Alike l results s') {p : Process World α} {p' : Process World β}
    (hp : p.Alike { l with steps } answers p') :
    (s.turn p).1.Alike { l with steps } answers (s'.turn p').1 ∧
      (s.turn p).2.Alike l results (s'.turn p').2 := by
  have hturn := hp.turn (hl.withSteps hsteps).steady s.left (s.access s.locks) h.world
  have haccess : s'.access s'.locks = s.access s.locks := by
    rw [h.access_eq, h.locks]
  rw [turn_fst, turn_fst, turn_snd, turn_snd, haccess, ← h.left, ← hturn.left]
  refine ⟨hturn.outcome, ((release ?_ _).putRequest _ hturn.outcome).rouse hl⟩
  exact ⟨hturn.state, rfl, rfl, h.ready, h.waiting, h.tired, h.line⟩

theorem canGoOn_eq (h : s.Alike l results s') {request : Outcome World α}
    {request' : Outcome World β} (hrequest : request.Alike { l with steps } answers request') :
    s.canGoOn request = s'.canGoOn request' := by
  cases hrequest with
  | ended _ => rfl
  | waits hp => exact hp.isOver_eq (hl.withSteps hsteps) h.world
  | yields _ _ => rfl
  | lines _ => exact h.locks

theorem attend : ∀ (fuel : Nat) {s s' : Schedule} {request : Outcome World α}
    {request' : Outcome World β}, s.Alike l results s' →
    request.Alike { l with steps } answers request' →
      Option.Rel answers (attend fuel request s).1 (attend fuel request' s').1 ∧
        (attend fuel request s).2.Alike l results (attend fuel request' s').2
  | 0, _, _, _, _, h, _ => ⟨.none, h⟩
  | fuel + 1, s, s', request, request', h, hrequest => by
    obtain ⟨hout, hafter⟩ := turn hl hsteps h (rest hrequest)
    have hround := attend fuel (h.round hl) hrequest
    unfold Schedule.attend
    rw [h.canGoOn_eq hl hsteps hrequest,
      h.next?_eq hl ((rest hrequest).wait?_eq (hl.withSteps hsteps))]
    generalize s.turn request.rest = turned, s'.turn request'.rest = turned' at hout hafter
    obtain ⟨out, t⟩ := turned
    obtain ⟨out', t'⟩ := turned'
    split
    · cases hout with
      | ended ha => exact ⟨.some ha, hafter⟩
      | waits hp => exact attend fuel (hafter.round hl) (.waits hp)
      | yields locks hp => exact attend fuel (hafter.round hl) (.yields locks hp)
      | lines hp => exact attend fuel (hafter.round hl) (.lines hp)
    · rw [isEmpty_eq h.ready]
      split
      · cases s'.next? request'.rest with
        | none => exact ⟨.none, h⟩
        | some instant => exact attend fuel (h.setClock hl instant) hrequest
      · exact hround

end

theorem bound_eq (h : s.Alike l results s') : s.bound = s'.bound := by
  have hline : List.Forall₂ (Job.Alike l results) (s.line.filterMap id) (s'.line.filterMap id) :=
    List.rel_filterMap (fun _ _ hjob => hjob) h.line
  have hjobs := List.rel_append (List.rel_append (List.rel_append h.ready h.waiting) h.tired) hline
  unfold bound
  refine List.rel_foldl (P := Eq) ?_ rfl hjobs
  rintro all _ rfl job job' hjob
  exact congrArg (fun stops => all + 3 * (stops + 1)) hjob.stops

/-- **Requests that go alike are served in tandem**: both are answered, and
alike, or none of them is; and the schedules stand alike in the end. -/
theorem serve {steps : World → World → World → World → Prop} (hl : l.Worldly results)
    (hsteps : ∀ {s t s' t'}, l.states s t → steps s t s' t' → l.states s' t')
    (h : s.Alike l results s') (stops : Nat) {p : Process World α} {p' : Process World β}
    (hp : p.Alike { l with steps } answers p') :
    Option.Rel answers (s.serve stops p).1 (s'.serve stops p').1 ∧
      (s.serve stops p).2.Alike l results (s'.serve stops p').2 := by
  unfold Schedule.serve
  rw [h.bound_eq]
  exact attend hl hsteps _ h (.yields false hp)

/-- A run is put into the background of both. -/
theorem addJob (h : s.Alike l results s') {w w' : World} (hw : l.states w w') {job job' : Job}
    (hjob : job.Alike l results job') : Schedule.Alike l results
      { s with world := w, ready := s.ready ++ [job] }
      { s' with world := w', ready := s'.ready ++ [job'] } :=
  ⟨hw, h.left, h.locks, List.rel_append h.ready (.cons hjob .nil), h.waiting, h.tired, h.line⟩

end Schedule.Alike

end Automation
