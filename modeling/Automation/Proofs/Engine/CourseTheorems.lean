/-
Automation.Proofs.Engine.CourseTheorems — the course of a process, moment
by moment.

`Process.Ends` says where a process comes to in company. `Process.Course`
says where it is on the way: what is left of it, and in which state. The
others come in only while it stands at a lock or at a wait, and what they
may do there can depend on the wait (`Company`): a clock that others move
does not run past the instant that the process waits for.

What holds at every moment and in the end is proved by `Process.Holds`,
which is computed along the process and composes (`holds_bind`); it is
what `Process.Keeps` is to `Process.Ends`, without what the process
vouches for. `Process.Does` is simpler: what each change that the process
makes does to the state, whatever the state is.

* `Course.holds` — what holds of the process goes on to hold.
* `Course.turn` — a turn is a part of a course.
* `Course.of_map` — a process that tells less takes the same course.
* `Does.turn` — a turn does what each change does.
-/
import Automation.Proofs.Engine.AttemptTheorems

namespace Automation

open Process

variable {σ α β ρ : Type}

/-- What ends the waits of a process, and what the others may do while it
stands at a lock, or at a wait. -/
structure Company (σ : Type) where
  signals : σ → Signals
  others : Option Wait → σ → σ → Prop
  others_refl : ∀ place s, others place s s
  others_trans : ∀ place s s₁ s₂, others place s s₁ → others place s₁ s₂ → others place s s₂

namespace Process

/-! ## Courses -/

/-- The moments of a process that began in this state: what is left of it,
and the state then. -/
inductive Course (c : Company σ) (p : Process σ α) (s : σ) : Process σ α → σ → Prop where
  | start : Course c p s p s
  | act {change : σ → σ} {next : σ → Process σ α} {t : σ} :
      Course c p s (.act change next) t → Course c p s (next t) (change t)
  | locked {change : σ → σ} {next : σ → Process σ α} {t : σ} :
      Course c p s (.locked change next) t → Course c p s (next t) (change t)
  | spend {pieces : Nat} {next : Process σ α} {t : σ} :
      Course c p s (.spend pieces next) t → Course c p s next t
  | await {wait : Wait} {next : Wake → Process σ α} {wake : Wake} {t : σ} :
      Course c p s (.await wait next) t → wait.wake? (c.signals t) = some wake →
      Course c p s (next wake) t
  | others {q : Process σ α} {t t' : σ} :
      Course c p s q t → q.AtStop → c.others q.wait? t t' → Course c p s q t'

/-- What holds at every moment of a process, and of every result. -/
def Holds (c : Company σ) (always : σ → Prop) (post : α → σ → Prop) : Process σ α → σ → Prop
  | done a, s => always s ∧ post a s
  | act change next, s => always s ∧ (next s).Holds c always post (change s)
  | locked change next, s => ∀ s₁, c.others none s s₁ →
    always s₁ ∧ (next s₁).Holds c always post (change s₁)
  | spend _ next, s => next.Holds c always post s
  | await wait next, s => ∀ s₁, c.others (some wait) s s₁ → always s₁ ∧
    ∀ wake, wait.wake? (c.signals s₁) = some wake → (next wake).Holds c always post s₁

variable {c : Company σ} {always : σ → Prop}

theorem Holds.now {post : α → σ → Prop} : ∀ {p : Process σ α} {s : σ},
    p.Holds c always post s → always s
  | done _, _, h => h.1
  | act _ _, _, h => h.1
  | locked _ _, s, h => (h s (c.others_refl _ s)).1
  | spend _ next, _, h => Holds.now (p := next) h
  | await _ _, s, h => (h s (c.others_refl _ s)).1

theorem Holds.mono {post post' : α → σ → Prop} (h : ∀ a s, post a s → post' a s) :
    ∀ {p : Process σ α} {s : σ}, p.Holds c always post s → p.Holds c always post' s
  | done a, s, hp => ⟨hp.1, h a s hp.2⟩
  | act _ _, _, hp => ⟨hp.1, hp.2.mono h⟩
  | locked _ _, _, hp => fun s₁ ho => ⟨(hp s₁ ho).1, (hp s₁ ho).2.mono h⟩
  | spend _ next, _, hp => Holds.mono (p := next) h hp
  | await _ _, _, hp => fun s₁ ho =>
    ⟨(hp s₁ ho).1, fun wake hw => ((hp s₁ ho).2 wake hw).mono h⟩

/-- What holds of one process after the other. -/
theorem holds_bind {post : β → σ → Prop} {k : α → Process σ β} :
    ∀ {p : Process σ α} {s : σ}, (p >>= k).Holds c always post s ↔
      p.Holds c always (fun a s => (k a).Holds c always post s) s
  | done _, _ => ⟨fun h => ⟨Holds.now h, h⟩, fun h => h.2⟩
  | act _ _, _ => and_congr Iff.rfl holds_bind
  | locked _ _, _ => forall₂_congr fun _ _ => and_congr Iff.rfl holds_bind
  | spend _ next, _ => holds_bind (p := next)
  | await _ _, _ => forall₂_congr fun _ _ =>
    and_congr Iff.rfl (forall₂_congr fun _ _ => holds_bind)

theorem holds_done {post : α → σ → Prop} {a : α} {s : σ} (hs : always s) (h : post a s) :
    (done a).Holds c always post s := ⟨hs, h⟩

theorem holds_read {post : α → σ → Prop} {f : σ → α} {s : σ} (hs : always s) (h : post (f s) s) :
    (read f).Holds c always post s := ⟨hs, hs, h⟩

/-- Nothing has to hold. -/
theorem holds_true (c : Company σ) : ∀ (p : Process σ α) (s : σ),
    p.Holds c (fun _ => True) (fun _ _ => True) s
  | done _, _ => ⟨trivial, trivial⟩
  | act _ next, s => ⟨trivial, holds_true c (next s) _⟩
  | locked _ next, _ => fun s₁ _ => ⟨trivial, holds_true c (next s₁) _⟩
  | spend _ next, s => holds_true c next s
  | await _ next, _ => fun s₁ _ => ⟨trivial, fun wake _ => holds_true c (next wake) s₁⟩

/-- All of this holds in the end if each of it does. -/
theorem holds_forall {ι : Type} {post : ι → α → σ → Prop} : ∀ {p : Process σ α} {s : σ},
    (∀ i, p.Holds c (fun _ => True) (post i) s) →
      p.Holds c (fun _ => True) (fun a s => ∀ i, post i a s) s
  | done _, _, h => ⟨trivial, fun i => (h i).2⟩
  | act _ _, _, h => ⟨trivial, holds_forall fun i => (h i).2⟩
  | locked _ _, _, h => fun s₁ ho => ⟨trivial, holds_forall fun i => (h i s₁ ho).2⟩
  | spend _ next, _, h => holds_forall (p := next) h
  | await _ _, _, h => fun s₁ ho =>
    ⟨trivial, fun wake hw => holds_forall fun i => (h i s₁ ho).2 wake hw⟩

/-- What always holds of the results holds in the end. -/
theorem Holds.and_always {post : α → σ → Prop} {post' : α → Prop} :
    ∀ {p : Process σ α} {s : σ}, p.Holds c always post s → p.Always post' →
      p.Holds c always (fun a s => post a s ∧ post' a) s
  | done _, _, h, h' => ⟨h.1, h.2, h'⟩
  | act _ _, s, h, h' => ⟨h.1, h.2.and_always (h' s)⟩
  | locked _ _, _, h, h' => fun s₁ ho => ⟨(h s₁ ho).1, (h s₁ ho).2.and_always (h' s₁)⟩
  | spend _ next, _, h, h' => Holds.and_always (p := next) h h'
  | await _ _, _, h, h' => fun s₁ ho =>
    ⟨(h s₁ ho).1, fun wake hw => ((h s₁ ho).2 wake hw).and_always (h' wake)⟩

/-- The invariant holds in the end, too. -/
theorem Holds.and_now {post : α → σ → Prop} : ∀ {p : Process σ α} {s : σ},
    p.Holds c always post s → p.Holds c always (fun a s => post a s ∧ always s) s
  | done _, _, h => ⟨h.1, h.2, h.1⟩
  | act _ _, _, h => ⟨h.1, h.2.and_now⟩
  | locked _ _, _, h => fun s₁ ho => ⟨(h s₁ ho).1, (h s₁ ho).2.and_now⟩
  | spend _ next, _, h => Holds.and_now (p := next) h
  | await _ _, _, h => fun s₁ ho => ⟨(h s₁ ho).1, fun wake hw => ((h s₁ ho).2 wake hw).and_now⟩

/-! ### Adequacy -/

/-- What holds of a process goes on to hold, whatever the others do. -/
theorem Holds.company {post : α → σ → Prop} {s s' : σ} : ∀ {p : Process σ α}, p.AtStop →
    c.others p.wait? s s' → p.Holds c always post s → p.Holds c always post s'
  | locked _ _, _, ho, h => fun s₁ ho₁ => h s₁ (c.others_trans _ _ _ _ ho ho₁)
  | await _ _, _, ho, h => fun s₁ ho₁ => h s₁ (c.others_trans _ _ _ _ ho ho₁)

/-- **What holds of a process goes on to hold** at every moment. -/
theorem Course.holds {post : α → σ → Prop} {p q : Process σ α} {s t : σ}
    (h : Course c p s q t) (hp : p.Holds c always post s) : q.Holds c always post t := by
  induction h with
  | start => exact hp
  | act _ ih => exact ih.2
  | @locked change next t _ ih => exact (ih t (c.others_refl _ t)).2
  | spend _ ih => exact ih
  | @await wait next wake t _ hw ih => exact (ih t (c.others_refl _ t)).2 wake hw
  | others _ hq ho ih => exact ih.company hq ho

/-- What holds of every result holds of every result that is left. -/
theorem Course.of_always {post : α → Prop} {p q : Process σ α} {s t : σ} (h : Course c p s q t)
    (hp : p.Always post) : q.Always post := by
  induction h with
  | start => exact hp
  | act _ ih => exact ih _
  | locked _ ih => exact ih _
  | spend _ ih => exact ih
  | await _ _ ih => exact ih _
  | others _ _ _ ih => exact ih

/-- A course goes on from where it has come to. -/
theorem Course.append {p q r : Process σ α} {s t u : σ} (h : Course c p s q t)
    (h' : Course c q t r u) : Course c p s r u := by
  induction h' with
  | start => exact h
  | act _ ih => exact ih.act
  | locked _ ih => exact ih.locked
  | spend _ ih => exact ih.spend
  | await _ hw ih => exact ih.await hw
  | others _ hq ho ih => exact ih.others hq ho

/-- What others may do who may do less. -/
theorem Course.mono {c' : Company σ} (hsignals : c'.signals = c.signals)
    (hothers : ∀ place s s', c.others place s s' → c'.others place s s') {p q : Process σ α} {s t : σ}
    (h : Course c p s q t) : Course c' p s q t := by
  induction h with
  | start => exact .start
  | act _ ih => exact ih.act
  | locked _ ih => exact ih.locked
  | spend _ ih => exact ih.spend
  | await _ hw ih => exact ih.await (hsignals ▸ hw)
  | others _ hq ho ih => exact ih.others hq (hothers _ _ _ ho)

/-- A turn is a part of a course. -/
theorem Course.turn {p : Process σ α} {s : σ} : ∀ {q : Process σ α} (left : Nat)
    (access : Access) {t : σ}, Course c p s q t →
      Course c p s (q.turn c.signals left access t).outcome.rest
        (q.turn c.signals left access t).state
  | .done _, _, _, _, h => h
  | .act _ next, left, access, t, h => Course.turn (q := next t) left access h.act
  | .locked _ _, left, access, _, h => by
    unfold Process.turn
    cases access with
    | taken => exact h
    | own wanted => exact Course.turn _ _ h.locked
    | free =>
      dsimp only
      split
      · exact h
      · exact Course.turn _ _ h.locked
  | .spend pieces next, left, access, _, h => Course.turn (q := next) (left - pieces) access h.spend
  | .await wait next, left, access, t, h => by
    unfold Process.turn
    split
    · exact h
    · cases hw : wait.wake? (c.signals t) with
      | none => exact h
      | some wake => exact Course.turn _ access (h.await hw)

/-- What is made of the results does not change the course. -/
theorem Course.map (f : α → β) {p q : Process σ α} {s t : σ} (h : Course c p s q t) :
    Course c (f <$> p) s (f <$> q) t := by
  induction h with
  | start => exact .start
  | act _ ih => exact Course.act ih
  | locked _ ih => exact Course.locked ih
  | spend _ ih => exact Course.spend ih
  | await _ hw ih => exact Course.await ih hw
  | @others q _ _ _ hstop ho ih =>
    refine ih.others ?_ ?_
    · cases q <;> exact hstop
    · cases q <;> exact ho

/-- A process that tells less takes the same course. -/
theorem Course.of_map {f : α → β} {p : Process σ α} {s t : σ} {q' : Process σ β}
    (h : Course c (f <$> p) s q' t) : ∃ q, Course c p s q t ∧ q' = f <$> q := by
  -- each step of the one is a step of the other, which is at the same place
  induction h with
  | start => exact ⟨p, .start, rfl⟩
  | act _ ih =>
    obtain ⟨q, hq, heq⟩ := ih
    cases q <;> cases heq
    exact ⟨_, hq.act, rfl⟩
  | locked _ ih =>
    obtain ⟨q, hq, heq⟩ := ih
    cases q <;> cases heq
    exact ⟨_, hq.locked, rfl⟩
  | spend _ ih =>
    obtain ⟨q, hq, heq⟩ := ih
    cases q <;> cases heq
    exact ⟨_, hq.spend, rfl⟩
  | await _ hw ih =>
    obtain ⟨q, hq, heq⟩ := ih
    cases q <;> cases heq
    exact ⟨_, hq.await hw, rfl⟩
  | others _ hstop ho ih =>
    obtain ⟨q, hq, rfl⟩ := ih
    refine ⟨q, hq.others ?_ ?_, rfl⟩
    · cases q <;> exact hstop
    · cases q <;> exact ho

/-- And it tells of the same result. -/
theorem Course.of_map_done {f : α → β} {p : Process σ α} {s t : σ} {b : β}
    (h : Course c (f <$> p) s (.done b) t) : ∃ a, Course c p s (.done a) t ∧ f a = b := by
  obtain ⟨q, hcourse, hq⟩ := h.of_map
  cases q with
  | done a => exact ⟨a, hcourse, (Process.done.inj hq).symm⟩
  | act _ _ => cases hq
  | locked _ _ => cases hq
  | spend _ _ => cases hq
  | await _ _ => cases hq

/-! ## What each change does -/

/-- Each change that the process makes is `ok`, whatever the state is. -/
def Does (ok : σ → σ → Prop) : Process σ α → Prop
  | done _ => True
  | act change next => ∀ s, ok s (change s) ∧ (next s).Does ok
  | locked change next => ∀ s, ok s (change s) ∧ (next s).Does ok
  | spend _ next => next.Does ok
  | await _ next => ∀ wake, (next wake).Does ok

variable {ok : σ → σ → Prop}

theorem Does.mono {ok' : σ → σ → Prop} (h : ∀ s s', ok s s' → ok' s s') :
    ∀ {p : Process σ α}, p.Does ok → p.Does ok'
  | done _, _ => trivial
  | act _ _, hp => fun s => ⟨h _ _ (hp s).1, (hp s).2.mono h⟩
  | locked _ _, hp => fun s => ⟨h _ _ (hp s).1, (hp s).2.mono h⟩
  | spend _ next, hp => Does.mono (p := next) h hp
  | await _ _, hp => fun wake => (hp wake).mono h

/-- What one process after the other does; the second one begins with a
result of the first. -/
theorem Does.bind {post : α → Prop} {k : α → Process σ β} (hk : ∀ a, post a → (k a).Does ok) :
    ∀ {p : Process σ α}, p.Does ok → p.Always post → (p >>= k).Does ok
  | done a, _, h => hk a h
  | act _ _, hp, h => fun s => ⟨(hp s).1, (hp s).2.bind hk (h s)⟩
  | locked _ _, hp, h => fun s => ⟨(hp s).1, (hp s).2.bind hk (h s)⟩
  | spend _ next, hp, h => Does.bind (p := next) hk hp h
  | await _ _, hp, h => fun wake => (hp wake).bind hk (h wake)

/-- The same, whatever the result of the first. -/
theorem Does.then {k : α → Process σ β} {p : Process σ α} (hp : p.Does ok)
    (hk : ∀ a, (k a).Does ok) : (p >>= k).Does ok := by
  have hall : p.Always fun _ => True := always_of_forall (fun _ => trivial) p
  exact hp.bind (fun a _ => hk a) hall

/-- Looking at the state does nothing. -/
theorem Does.read_bind {f : σ → α} {k : α → Process σ β} (hrefl : ∀ s, ok s s)
    (hk : ∀ a, (k a).Does ok) : (read f >>= k).Does ok :=
  fun s => ⟨hrefl s, hk (f s)⟩

/-- A turn does what each change does. -/
theorem Does.turn (hrefl : ∀ s, ok s s) (htrans : ∀ s s₁ s₂, ok s s₁ → ok s₁ s₂ → ok s s₂)
    (signals : σ → Signals) : ∀ {p : Process σ α} (left : Nat) (access : Access) (s : σ),
      p.Does ok → ok s (p.turn signals left access s).state ∧
        (p.turn signals left access s).outcome.rest.Does ok
  | done _, _, _, s, _ => ⟨hrefl s, trivial⟩
  | act change _, left, access, s, hp => by
    have ih := Does.turn hrefl htrans signals left access (change s) (hp s).2
    exact ⟨htrans _ _ _ (hp s).1 ih.1, ih.2⟩
  | locked change _, left, access, s, hp => by
    have ih := fun left access => Does.turn hrefl htrans signals left access (change s) (hp s).2
    have hgoes := fun left access => htrans _ _ _ (hp s).1 (ih left access).1
    unfold Process.turn
    cases access with
    | taken => exact ⟨hrefl s, hp⟩
    | own wanted => exact ⟨hgoes _ _, (ih _ _).2⟩
    | free =>
      dsimp only
      split
      · exact ⟨hrefl s, hp⟩
      · exact ⟨hgoes _ _, (ih _ _).2⟩
  | spend pieces next, left, access, s, hp =>
    Does.turn (p := next) hrefl htrans signals (left - pieces) access s hp
  | await wait next, left, access, s, hp => by
    unfold Process.turn
    split
    · exact ⟨hrefl s, hp⟩
    · cases wait.wake? (signals s) with
      | none => exact ⟨hrefl s, hp⟩
      | some wake => exact Does.turn hrefl htrans signals _ access s (hp wake)

end Process

/-- Walks in company: `inv` holds between two visits, `post` in the end. -/
theorem holds_walk {c : Company σ} {always : σ → Prop}
    {visit : String → α → Process σ (α × Onward ρ)} {post : α × Option ρ → σ → Prop}
    (inv : α → σ → Prop) (hnow : ∀ a s, inv a s → always s)
    (hend : ∀ a s, inv a s → post (a, none) s)
    (hvisit : ∀ id a s, inv a s → (visit id a).Holds c always (fun (a, onward) s =>
      match onward with
      | .follow _ => inv a s
      | .halt reason => always s ∧ post (a, some reason) s) s) :
    ∀ (budget : Nat) (marked stack : List String) (a : α) (s : σ), inv a s →
      (walk visit budget marked stack a).Holds c always post s
  | 0, _, _, a, s, h => holds_done (hnow a s h) (hend a s h)
  | budget + 1, marked, stack, a, s, h => by
    unfold walk
    cases stack.dropWhile marked.contains with
    | nil => exact holds_done (hnow a s h) (hend a s h)
    | cons id rest =>
      refine holds_bind.mpr ((hvisit id a s h).mono ?_)
      rintro ⟨a, onward⟩ s hon
      cases onward with
      | halt reason => exact holds_done hon.1 hon.2
      | follow targets => exact holds_walk inv hnow hend hvisit budget _ _ _ _ hon

/-- Setting a run off enters it and hands it in, and does nothing else. -/
theorem Engine.does_prepare {ok : World → World → Prop} (hrefl : ∀ s, ok s s)
    (hadd : ∀ s run, ok s (s.addRun run).2) (hsave : ∀ s run, ok s (s.saveRun run).2) (e : Engine)
    (w : Workflow) (payload : Json.Value) (options : RunOptions) :
    (e.prepare w payload options).Does ok := by
  unfold prepare
  refine .read_bind hrefl fun now => .read_bind hrefl fun id => ?_
  refine Does.then (p := Process.stepLocked _) (fun s => ⟨hadd s _, trivial⟩) fun token => ?_
  split
  · trivial
  · exact Does.then (p := Driver.save _) (fun s => ⟨hsave s _, trivial⟩) fun _ => trivial

end Automation
