/-
Automation.Proofs.Engine.TraceTheorems — the course of a process, with what
the process has done itself.

A state in company does not tell who has made it what it is. A
`Process.Trace` is a course with a log: whenever the process changes the
state, something may be entered for it, and what the others do is not.

What a process does and where it stands is proved by `Process.Assures`,
which is computed along the process and composes (`Assures.bind`). It says
of every change of the process that it is of its `own` kind, of every lock
and wait what is to hold there, in the light of the log, and of every
result what holds of it. What is to hold at a lock or a wait may depend on
what is left of the process, so that it can be said what the process is in
the middle of (`Process.Inside`).

* `Trace.assures` — what a process assures it goes on to assure.
* `Trace.invariant` — what each change keeps holds on the whole way.
* `Assures.watch` — what holds wherever a process stands, for it is a rest
  of the process.
* `assures_walk` — the rule for walks.
-/
import Automation.Proofs.Engine.CourseTheorems

namespace Automation

open Process

variable {σ ε α β ρ : Type}

namespace Process

/-! ## Rests -/

/-- What may be left of a process, in whatever company. -/
inductive Rest (p : Process σ α) : Process σ α → Prop where
  | self : Rest p p
  | act {change : σ → σ} {next : σ → Process σ α} (s : σ) :
      Rest p (.act change next) → Rest p (next s)
  | locked {change : σ → σ} {next : σ → Process σ α} (s : σ) :
      Rest p (.locked change next) → Rest p (next s)
  | spend {pieces : Nat} {next : Process σ α} : Rest p (.spend pieces next) → Rest p next
  | await {wait : Wait} {next : Wake → Process σ α} (wake : Wake) :
      Rest p (.await wait next) → Rest p (next wake)

/-- A process is in the middle of another one, and has something to do after
it. -/
def Inside (part : Process σ β) (q : Process σ α) : Prop :=
  ∃ p k, Rest part p ∧ q = p >>= k

theorem Inside.bind {γ : Type} {part : Process σ γ} {q : Process σ α} (h : Inside part q)
    (k : α → Process σ β) : Inside part (q >>= k) := by
  obtain ⟨p, l, hp, rfl⟩ := h
  exact ⟨p, _, hp, bind_bind p l k⟩

theorem inside_of_rest {part q : Process σ α} (h : Rest part q) : Inside part q :=
  ⟨q, done, h, (bind_done q).symm⟩

/-- A process stands where its first part stands. -/
theorem wait?_bind {k : α → Process σ β} : ∀ {p : Process σ α}, p.AtStop →
    (p >>= k).wait? = p.wait?
  | locked _ _, _ => rfl
  | await _ _, _ => rfl

/-! ## Traces -/

/-- The moments of a process that began in this state: what is left of it, the
state then, and what it has entered for its own changes. -/
inductive Trace (c : Company σ) (entry : σ → σ → List ε) (p : Process σ α) (s : σ) :
    Process σ α → σ → List ε → Prop where
  | start : Trace c entry p s p s []
  | act {change : σ → σ} {next : σ → Process σ α} {t : σ} {log : List ε} :
      Trace c entry p s (.act change next) t log →
      Trace c entry p s (next t) (change t) (log ++ entry t (change t))
  | locked {change : σ → σ} {next : σ → Process σ α} {t : σ} {log : List ε} :
      Trace c entry p s (.locked change next) t log →
      Trace c entry p s (next t) (change t) (log ++ entry t (change t))
  | spend {pieces : Nat} {next : Process σ α} {t : σ} {log : List ε} :
      Trace c entry p s (.spend pieces next) t log → Trace c entry p s next t log
  | await {wait : Wait} {next : Wake → Process σ α} {wake : Wake} {t : σ} {log : List ε} :
      Trace c entry p s (.await wait next) t log → wait.wake? (c.signals t) = some wake →
      Trace c entry p s (next wake) t log
  | others {q : Process σ α} {t t' : σ} {log : List ε} :
      Trace c entry p s q t log → q.AtStop → c.others q.wait? t t' → Trace c entry p s q t' log

section

variable {c : Company σ} {entry : σ → σ → List ε} {p q : Process σ α} {s t : σ} {log : List ε}

/-- Every course has a trace. -/
theorem Course.exists_trace (h : Course c p s q t) (entry : σ → σ → List ε) :
    ∃ log, Trace c entry p s q t log := by
  induction h with
  | start => exact ⟨_, .start⟩
  | act _ ih =>
    obtain ⟨log, h⟩ := ih
    exact ⟨_, h.act⟩
  | locked _ ih =>
    obtain ⟨log, h⟩ := ih
    exact ⟨_, h.locked⟩
  | spend _ ih =>
    obtain ⟨log, h⟩ := ih
    exact ⟨_, h.spend⟩
  | await _ hw ih =>
    obtain ⟨log, h⟩ := ih
    exact ⟨_, h.await hw⟩
  | others _ hq ho ih =>
    obtain ⟨log, h⟩ := ih
    exact ⟨_, h.others hq ho⟩

/-- Nothing is entered for a process if nothing is for what it does. -/
theorem Trace.log_eq_nil {ok : σ → σ → Prop} (hok : ∀ s s', ok s s' → entry s s' = [])
    (h : Trace c entry p s q t log) (hp : p.Does ok) : log = [] := by
  have hrest : log = [] ∧ q.Does ok := by
    induction h with
    | start => exact ⟨rfl, hp⟩
    | @act change next t log _ ih =>
      rw [ih.1, hok t (change t) (ih.2 t).1]
      exact ⟨rfl, (ih.2 t).2⟩
    | @locked change next t log _ ih =>
      rw [ih.1, hok t (change t) (ih.2 t).1]
      exact ⟨rfl, (ih.2 t).2⟩
    | spend _ ih => exact ih
    | await _ _ ih => exact ⟨ih.1, ih.2 _⟩
    | others _ _ _ ih => exact ih
  exact hrest.1

end

end Process

/-! ## Terms -/

/-- What a process counts on, and what it vouches for. -/
structure Terms (σ ε : Type) extends Company σ where
  /-- What is entered for a change of the process. -/
  entry : σ → σ → List ε
  /-- What the process itself does. -/
  own : σ → σ → Prop
  /-- What is to hold where the process stands at a lock or a wait. -/
  stop : {α : Type} → Process σ α → List ε → σ → Prop
  entry_refl : ∀ s, entry s s = []
  own_refl : ∀ s, own s s
  stop_bind : ∀ {α β : Type} {p : Process σ α} (k : α → Process σ β) {log : List ε} {s : σ},
    p.AtStop → stop p log s → stop (p >>= k) log s

/-- The same terms, with something else that is to hold at the locks and waits,
whatever is left of the process. -/
def Terms.watching (terms : Terms σ ε) (there : Option Wait → List ε → σ → Prop) : Terms σ ε :=
  { terms with
    stop := fun p log s => there p.wait? log s
    stop_bind := fun k _ _ hp h => by rwa [wait?_bind hp] }

namespace Process

/-- From this log and this state on, the process keeps to its terms, and every
result has `post`. -/
def Assures (terms : Terms σ ε) (post : α → List ε → σ → Prop) :
    Process σ α → List ε → σ → Prop
  | done a, log, s => post a log s
  | act change next, log, s => terms.own s (change s) ∧
    (next s).Assures terms post (log ++ terms.entry s (change s)) (change s)
  | locked change next, log, s => ∀ s₁, terms.others none s s₁ →
    terms.stop (locked change next) log s₁ ∧ terms.own s₁ (change s₁) ∧
      (next s₁).Assures terms post (log ++ terms.entry s₁ (change s₁)) (change s₁)
  | spend _ next, log, s => next.Assures terms post log s
  | await wait next, log, s => ∀ s₁, terms.others (some wait) s s₁ →
    terms.stop (await wait next) log s₁ ∧
      ∀ wake, wait.wake? (terms.signals s₁) = some wake → (next wake).Assures terms post log s₁

variable {terms : Terms σ ε} {post : α → List ε → σ → Prop} {log : List ε} {s : σ}

/-! ### Rules -/

theorem Assures.mono {post' : α → List ε → σ → Prop}
    (h : ∀ a log s, post a log s → post' a log s) :
    ∀ {p : Process σ α} {log : List ε} {s : σ}, p.Assures terms post log s →
      p.Assures terms post' log s
  | done a, log, s, hp => h a log s hp
  | act _ _, _, _, hp => ⟨hp.1, hp.2.mono h⟩
  | locked _ _, _, _, hp => fun s₁ ho =>
    ⟨(hp s₁ ho).1, (hp s₁ ho).2.1, (hp s₁ ho).2.2.mono h⟩
  | spend _ next, _, _, hp => Assures.mono (p := next) h hp
  | await _ _, _, _, hp => fun s₁ ho => ⟨(hp s₁ ho).1, fun wake hw => ((hp s₁ ho).2 wake hw).mono h⟩

/-- One process after the other. -/
theorem Assures.bind {post : β → List ε → σ → Prop} {k : α → Process σ β} :
    ∀ {p : Process σ α} {log : List ε} {s : σ},
      p.Assures terms (fun a log s => (k a).Assures terms post log s) log s →
      (p >>= k).Assures terms post log s
  | done _, _, _, hp => hp
  | act _ _, _, _, hp => ⟨hp.1, hp.2.bind⟩
  | locked _ _, _, _, hp => fun s₁ ho =>
    ⟨terms.stop_bind (p := locked _ _) k trivial (hp s₁ ho).1, (hp s₁ ho).2.1,
      (hp s₁ ho).2.2.bind⟩
  | spend _ next, _, _, hp => Assures.bind (p := next) hp
  | await _ _, _, _, hp => fun s₁ ho =>
    ⟨terms.stop_bind (p := await _ _) k trivial (hp s₁ ho).1,
      fun wake hw => ((hp s₁ ho).2 wake hw).bind⟩

theorem assures_read {f : σ → α} (h : post (f s) log s) : (read f).Assures terms post log s := by
  refine ⟨terms.own_refl s, ?_⟩
  rw [id_eq, terms.entry_refl, List.append_nil]
  exact h

/-- Looking at the state and going on. -/
theorem assures_read_bind {post : β → List ε → σ → Prop} {f : σ → α} {k : α → Process σ β}
    (h : (k (f s)).Assures terms post log s) : (read f >>= k).Assures terms post log s :=
  Assures.bind (assures_read h)

/-- What holds wherever a process stands, if it follows from what holds at its
locks and waits that it may stand there. -/
theorem Assures.watch {there : Option Wait → List ε → σ → Prop} {root : Process σ α}
    (h : ∀ q log s, Rest root q → q.AtStop → there q.wait? log s → terms.stop q log s) :
    ∀ {p : Process σ α} {log : List ε} {s : σ}, Rest root p →
      p.Assures (terms.watching there) post log s → p.Assures terms post log s
  | done _, _, _, _, hp => hp
  | act _ _, _, s, hr, hp => ⟨hp.1, hp.2.watch h (hr.act s)⟩
  | locked _ _, log, _, hr, hp => fun s₁ ho =>
    ⟨h _ log s₁ hr trivial (hp s₁ ho).1, (hp s₁ ho).2.1, (hp s₁ ho).2.2.watch h (hr.locked s₁)⟩
  | spend _ next, _, _, hr, hp => Assures.watch (p := next) h hr.spend hp
  | await _ _, log, _, hr, hp => fun s₁ ho =>
    ⟨h _ log s₁ hr trivial (hp s₁ ho).1,
      fun wake hw => ((hp s₁ ho).2 wake hw).watch h (hr.await wake)⟩

/-! ### Adequacy -/

/-- What a process assures where it stands. -/
theorem Assures.stop : ∀ {p : Process σ α}, p.AtStop → p.Assures terms post log s →
    terms.stop p log s
  | locked _ _, _, hp => (hp s (terms.others_refl _ s)).1
  | await _ _, _, hp => (hp s (terms.others_refl _ s)).1

/-- The others do no harm. -/
theorem Assures.company {s' : σ} : ∀ {p : Process σ α}, p.AtStop → terms.others p.wait? s s' →
    p.Assures terms post log s → p.Assures terms post log s'
  | locked _ _, _, ho, hp => fun s₁ ho₁ => hp s₁ (terms.others_trans _ _ _ _ ho ho₁)
  | await _ _, _, ho, hp => fun s₁ ho₁ => hp s₁ (terms.others_trans _ _ _ _ ho ho₁)

variable {p q : Process σ α} {t : σ} {log' : List ε}

/-- **What a process assures it goes on to assure**, at every moment. -/
theorem Trace.assures (h : Trace terms.toCompany terms.entry p s q t log')
    (hp : p.Assures terms post log s) : q.Assures terms post (log ++ log') t := by
  induction h with
  | start => rwa [List.append_nil]
  | act _ ih => rw [← List.append_assoc]; exact ih.2
  | @locked change next t log' _ ih =>
    rw [← List.append_assoc]
    exact (ih t (terms.others_refl _ t)).2.2
  | spend _ ih => exact ih
  | @await wait next wake t _ _ hw ih => exact (ih t (terms.others_refl _ t)).2 wake hw
  | others _ hq ho ih => exact ih.company hq ho

/-- **What each change keeps**, of the process and of the others, holds on the
whole way. -/
theorem Trace.invariant (inv : List ε → σ → Prop)
    (hown : ∀ log s s', terms.own s s' → inv log s → inv (log ++ terms.entry s s') s')
    (hothers : ∀ place log s s', terms.others place s s' → inv log s → inv log s')
    (h : Trace terms.toCompany terms.entry p s q t log') (hp : p.Assures terms post log s)
    (hi : inv log s) : inv (log ++ log') t := by
  induction h with
  | start => rwa [List.append_nil]
  | act h ih => rw [← List.append_assoc]; exact hown _ _ _ (h.assures hp).1 ih
  | @locked change next t log' h ih =>
    rw [← List.append_assoc]
    exact hown _ _ _ ((h.assures hp) t (terms.others_refl _ t)).2.1 ih
  | spend _ ih => exact ih
  | await _ _ ih => exact ih
  | others _ hq ho ih => exact hothers _ _ _ _ ho ih

end Process

/-- Walks: `inv` holds between two visits, `post` in the end. -/
theorem assures_walk {terms : Terms σ ε} {visit : String → α → Process σ (α × Onward ρ)}
    {post : α × Option ρ → List ε → σ → Prop} (inv : α → List ε → σ → Prop)
    (hend : ∀ a log s, inv a log s → post (a, none) log s)
    (hvisit : ∀ id a log s, inv a log s → (visit id a).Assures terms (fun (a, onward) log s =>
      match onward with
      | .follow _ => inv a log s
      | .halt reason => post (a, some reason) log s) log s) :
    ∀ (budget : Nat) (marked stack : List String) (a : α) (log : List ε) (s : σ), inv a log s →
      (walk visit budget marked stack a).Assures terms post log s
  | 0, _, _, a, log, s, h => hend a log s h
  | budget + 1, marked, stack, a, log, s, h => by
    unfold walk
    cases stack.dropWhile marked.contains with
    | nil => exact hend a log s h
    | cons id rest =>
      refine Assures.bind ((hvisit id a log s h).mono ?_)
      rintro ⟨a, onward⟩ log s hon
      cases onward with
      | halt reason => exact hon
      | follow targets => exact assures_walk inv hend hvisit budget _ _ _ _ _ hon

end Automation
