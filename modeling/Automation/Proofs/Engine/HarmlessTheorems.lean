/-
Automation.Proofs.Engine.HarmlessTheorems — requests that do no harm when
they are refused.

A process is harmless if it changes nothing before it is clear that it will
not be refused: each of its steps leaves the state as it was, or no result
that it can have from there on counts as a refusal (`Process.Harmless`). So
when it is refused, all its steps have changed nothing; and what it is
refused with is `idle`, which leaves nothing to be done.

While a request is served the jobs go on, and time may pass. `Drifts` is
what they do by themselves, turn by turn; what a harmless request that is
refused leaves behind is a world that has drifted, and nothing else
(`Harmless.refused`). Without jobs the world stays as it was, up to the
clock (`Drifts.of_nobody`).
-/
import Automation.Proofs.Engine.JobTheorems

namespace Automation

variable {σ α β : Type}

namespace Process

/-- Each step changes nothing, or leads to where no result is refused; refusals
are idle. -/
def Harmless (refused idle : α → Prop) : Process σ α → Prop
  | done a => refused a → idle a
  | act change next => ∀ s, (change s = s ∧ (next s).Harmless refused idle) ∨
      (next s).Always fun a => ¬refused a
  | locked change next => ∀ s, (change s = s ∧ (next s).Harmless refused idle) ∨
      (next s).Always fun a => ¬refused a
  | spend _ next => next.Harmless refused idle
  | await _ next => ∀ wake, (next wake).Harmless refused idle

variable {refused idle : α → Prop}

/-- What is never refused is harmless. -/
theorem Always.harmless : ∀ {p : Process σ α}, (p.Always fun a => ¬refused a) →
    p.Harmless refused idle
  | done _, h => fun hrefused => absurd hrefused h
  | act _ _, h => fun s => Or.inr (h s)
  | locked _ _, h => fun s => Or.inr (h s)
  | spend _ next, h => Always.harmless (p := next) h
  | await _ _, h => fun wake => (h wake).harmless

/-- What refuses less is still harmless. -/
theorem Harmless.mono {refused' : α → Prop} (h : ∀ a, refused' a → refused a) :
    ∀ {p : Process σ α}, p.Harmless refused idle → p.Harmless refused' idle := by
  have halways : ∀ {p : Process σ α}, (p.Always fun a => ¬refused a) →
      p.Always fun a => ¬refused' a := fun hp => hp.mono fun a ha => mt (h a) ha
  intro p
  induction p with
  | done a => exact fun hp hrefused => hp (h a hrefused)
  | act change next ih => exact fun hp s => (hp s).imp (fun hp => ⟨hp.1, ih s hp.2⟩) halways
  | locked change next ih => exact fun hp s => (hp s).imp (fun hp => ⟨hp.1, ih s hp.2⟩) halways
  | spend pieces next ih => exact ih
  | await wait next ih => exact fun hp wake => ih wake (hp wake)

theorem harmless_read_bind {f : σ → β} {k : β → Process σ α}
    (h : ∀ s, (k (f s)).Harmless refused idle) : (read f >>= k).Harmless refused idle :=
  fun s => Or.inl ⟨rfl, h s⟩

theorem harmless_readLocked_bind {f : σ → β} {k : β → Process σ α}
    (h : ∀ s, (k (f s)).Harmless refused idle) : (readLocked f >>= k).Harmless refused idle :=
  fun s => Or.inl ⟨rfl, h s⟩

theorem harmless_step_bind {f : σ → β × σ} {k : β → Process σ α}
    (h : ∀ s, ((f s).2 = s ∧ (k (f s).1).Harmless refused idle) ∨
      (k (f s).1).Always fun a => ¬refused a) : (step f >>= k).Harmless refused idle := h

theorem harmless_stepLocked_bind {f : σ → β × σ} {k : β → Process σ α}
    (h : ∀ s, ((f s).2 = s ∧ (k (f s).1).Harmless refused idle) ∨
      (k (f s).1).Always fun a => ¬refused a) : (stepLocked f >>= k).Harmless refused idle := h

/-- What is made of the results afterwards is refused as they are. -/
theorem Harmless.bind_done {refused' idle' : β → Prop} {f : α → β}
    (hf : ∀ a, refused' (f a) → refused a) (hidle : ∀ a, idle a → idle' (f a)) :
    ∀ {p : Process σ α}, p.Harmless refused idle →
      (p >>= fun a => done (f a)).Harmless refused' idle' := by
  have halways : ∀ {q : Process σ α}, (q.Always fun a => ¬refused a) →
      (q >>= fun a => done (f a)).Always fun b => ¬refused' b := by
    refine fun h => Always.bind ?_ h
    exact fun a ha => mt (hf a) ha
  intro p
  induction p with
  | done a => exact fun h hrefused => hidle a (h (hf a hrefused))
  | act change next ih => exact fun h s => (h s).imp (fun h => ⟨h.1, ih s h.2⟩) halways
  | locked change next ih => exact fun h s => (h s).imp (fun h => ⟨h.1, ih s h.2⟩) halways
  | spend pieces next ih => exact ih
  | await wait next ih => exact fun h wake => ih wake (h wake)

/-- In a turn a harmless process changes nothing, or it is clear that it will
not be refused. -/
theorem Harmless.turn (signals : σ → Signals) : ∀ {p : Process σ α} (left : Nat)
    (access : Access) (s : σ), p.Harmless refused idle →
      (p.turn signals left access s).state = s ∧
          (p.turn signals left access s).outcome.rest.Harmless refused idle ∨
        (p.turn signals left access s).outcome.rest.Always fun a => ¬refused a
  | done _, _, _, _, h => Or.inl ⟨rfl, h⟩
  | act change next, left, access, s, h => by
    unfold Process.turn
    rcases h s with ⟨hsame, hnext⟩ | halways
    · rw [hsame]
      exact hnext.turn signals left access s
    · exact Or.inr (halways.turn signals left access _)
  | locked change next, left, access, s, h => by
    have hgoes : ∀ left access, ((next s).turn signals left access (change s)).state = s ∧
        ((next s).turn signals left access (change s)).outcome.rest.Harmless refused idle ∨
          ((next s).turn signals left access (change s)).outcome.rest.Always
            fun a => ¬refused a := by
      intro left access
      rcases h s with ⟨hsame, hnext⟩ | halways
      · rw [hsame]
        exact hnext.turn signals left access s
      · exact Or.inr (halways.turn signals left access _)
    unfold Process.turn
    cases access with
    | taken => exact Or.inl ⟨rfl, h⟩
    | own wanted => exact hgoes _ _
    | free =>
      dsimp only
      split
      · exact Or.inl ⟨rfl, h⟩
      · exact hgoes _ _
  | spend pieces next, left, access, s, h =>
    Harmless.turn (p := next) signals (left - pieces) access s h
  | await wait next, left, access, s, h => by
    unfold Process.turn
    split
    · exact Or.inl ⟨rfl, h⟩
    · cases wait.wake? (signals s) with
      | none => exact Or.inl ⟨rfl, h⟩
      | some wake => exact (h wake).turn signals _ access s

end Process

/-! ## What happens by itself -/

namespace Schedule

open Process

/-- What the jobs and the clock do by themselves. -/
inductive Drifts (w : World) (jobs : Multiset Job) : World → Multiset Job → Prop where
  | start : Drifts w jobs w jobs
  | goes {w₁ w₂ : World} {js : Multiset Job} {job : Job} {access : Access}
      {outcome : Outcome World Run} {left : Nat} :
      Drifts w jobs w₁ (job ::ₘ js) →
      job.process.turn World.signals Process.share access w₁ = ⟨outcome, left, w₂⟩ →
      (∀ run, outcome ≠ .ended run) →
      Drifts w jobs w₂ ({ job with process := outcome.rest, locks := false } ::ₘ js)
  | ends {w₁ w₂ : World} {js : Multiset Job} {job : Job} {access : Access} {run : Run}
      {left : Nat} :
      Drifts w jobs w₁ (job ::ₘ js) →
      job.process.turn World.signals Process.share access w₁ = ⟨.ended run, left, w₂⟩ →
      Drifts w jobs (w₂.endRun job.id run) js
  | passes {w₁ : World} {js : Multiset Job} (now : Nat) :
      Drifts w jobs w₁ js → Drifts w jobs { w₁ with now := max w₁.now now } js

namespace Drifts

variable {w w' : World} {jobs jobs' : Multiset Job}

/-- Nobody does anything by himself, but time passes. -/
theorem of_nobody (h : Drifts w jobs w' jobs') (hjobs : jobs = 0) :
    w' = { w with now := w'.now } ∧ jobs' = 0 := by
  induction h with
  | start => exact ⟨rfl, hjobs⟩
  | goes _ _ _ ih => exact absurd ih.2 (Multiset.cons_ne_zero)
  | ends _ _ ih => exact absurd ih.2 (Multiset.cons_ne_zero)
  | passes now _ ih => exact ⟨by rw [ih.1], ih.2⟩

/-- What jobs and the clock come to by themselves. -/
theorem relates {ok : World → World → Prop} (hrefl : ∀ w, ok w w)
    (htrans : ∀ w w₁ w₂, ok w w₁ → ok w₁ w₂ → ok w w₂)
    (hclock : ∀ (w : World) now, ok w { w with now := max w.now now })
    (hjobs : ∀ job ∈ jobs, job.Does ok) (h : Drifts w jobs w' jobs') :
    ok w w' ∧ ∀ job ∈ jobs', job.Does ok := by
  induction h with
  | start => exact ⟨hrefl _, hjobs⟩
  | @goes w₁ w₂ js job access outcome left _ ht _ ih =>
    obtain ⟨hok, hdoes⟩ := ih
    have hjob := hdoes _ (Multiset.mem_cons_self _ _)
    have hturn := (hjob.process.turn hrefl htrans World.signals Process.share access w₁).1
    have hrest := does_turn_job hrefl htrans _ access w₁ hjob
    rw [ht] at hturn hrest
    refine ⟨htrans _ _ _ hok hturn, fun job' hjob' => ?_⟩
    rcases Multiset.mem_cons.mp hjob' with rfl | hjob'
    · exact hrest
    · exact hdoes job' (Multiset.mem_cons_of_mem hjob')
  | @ends w₁ w₂ js job access run left _ ht ih =>
    obtain ⟨hok, hdoes⟩ := ih
    have hjob := hdoes _ (Multiset.mem_cons_self _ _)
    have hturn := (hjob.process.turn hrefl htrans World.signals Process.share access w₁).1
    rw [ht] at hturn
    refine ⟨htrans _ _ _ hok (htrans _ _ _ hturn (hjob.ends w₂ run)), fun job' hjob' => ?_⟩
    exact hdoes job' (Multiset.mem_cons_of_mem hjob')
  | passes now _ ih => exact ⟨htrans _ _ _ ih.1 (hclock _ now), ih.2⟩

/-- A job takes a turn by itself. -/
theorem take {s : Schedule} {job : Job} (h : Drifts w jobs s.world (job.unlocked ::ₘ s.jobs)) :
    Drifts w jobs (s.take job).world (s.take job).jobs := by
  obtain ⟨outcome, left', v, ht, hjobs, htake⟩ := s.exists_take job
  rw [htake]
  rcases outcome.ended_or_goes with ⟨run, rfl⟩ | hgoes
  · have hended := h.ends ht
    rw [← hjobs] at hended
    exact hended
  · rw [put_world hgoes, jobs_put hgoes, hjobs]
    exact h.goes ht hgoes

end Drifts

/-! ## Refusals -/

section

variable {s t : Schedule} {p q : Process World α} {refused idle : α → Prop}

/-- While a harmless request is served, everything happens by itself, until it
is clear that it will not be refused. -/
theorem Serves.harmless (h : Serves s p q t) (hp : p.Harmless refused idle) :
    Drifts s.world s.jobs t.world t.jobs ∧ q.Harmless refused idle ∨
      q.Always fun a => ¬refused a := by
  induction h with
  | start => exact Or.inl ⟨.start, hp⟩
  | @request q t _ _ ih =>
    rw [turn_world, jobs_turn, turn_fst]
    rcases ih with ⟨hdrifts, hq⟩ | halways
    · rcases hq.turn World.signals t.left (t.access t.locks) t.world with ⟨hsame, hrest⟩ | halways
      · rw [hsame]
        exact Or.inl ⟨hdrifts, hrest⟩
      · exact Or.inr halways
    · exact Or.inr (halways.turn World.signals _ _ _)
  | @job q t job ready _ hready ih =>
    refine ih.imp (fun ⟨hdrifts, hq⟩ => ⟨?_, hq⟩) id
    rw [jobs_cons hready] at hdrifts
    exact Drifts.take (s := { t with ready }) hdrifts
  | @round q t _ ih =>
    rw [jobs_again]
    exact ih
  | @clock q t now _ ih =>
    refine ih.imp (fun ⟨hdrifts, hq⟩ => ⟨?_, hq⟩) id
    have hjobs : (t.setClock now).jobs = t.jobs := jobs_rouse _
    rw [hjobs]
    exact hdrifts.passes now

/-- **A harmless request that is refused has changed nothing**, and leaves
nothing to be done. -/
theorem refused_drifts {stops : Nat} {a : α} (hp : p.Harmless refused idle)
    (ha : (s.serve stops p).1 = some a) (hrefused : refused a) :
    Drifts s.world s.jobs (s.serve stops p).2.world (s.serve stops p).2.jobs ∧ idle a := by
  have hserved := s.served stops p
  generalize s.serve stops p = served at hserved ha
  obtain ⟨a?, t⟩ := served
  obtain rfl : a? = some a := ha
  obtain ⟨q, u, hserves, hturn⟩ := hserved
  obtain ⟨houtcome, hworld, hjobs⟩ := turn_eq hturn
  rw [← hworld, hjobs]
  have hnot : ¬(q.turn World.signals u.left (u.access u.locks) u.world).outcome.rest.Always
      fun a => ¬refused a := fun halways => by
    rw [houtcome] at halways
    exact halways hrefused
  rcases hserves.harmless hp with ⟨hdrifts, hq⟩ | halways
  · rcases hq.turn World.signals u.left (u.access u.locks) u.world with ⟨hsame, hrest⟩ | halways
    · rw [hsame]
      rw [houtcome] at hrest
      exact ⟨hdrifts, hrest hrefused⟩
    · exact absurd halways hnot
  · exact absurd (halways.turn World.signals _ _ _) hnot

end

end Schedule

end Automation
