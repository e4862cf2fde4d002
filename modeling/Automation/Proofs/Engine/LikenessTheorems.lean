/-
Automation.Proofs.Engine.LikenessTheorems — two processes that go alike.

Two processes, each on a state of its own, go alike if from like states
each step of the one is matched by a step of the same kind of the other:
changes that lead to like states, the same piece of the share, like waits.
`Process.Alike` says so along both trees at once; nothing is assumed of
the company in which either of them runs, except that the states are alike
whenever they go on. What states, steps and waits are alike is a
`Likeness`.

Alikeness composes (`Alike.bind`, `alike_walk`), and in one turn on like
states two alike processes come equally far (`Alike.turn`). With the
likeness `Likeness.self` a process is compared to itself: then like states
are equal states with an invariant, and what is said of steps is what the
process does from such states.
-/
import Automation.Proofs.Engine.CourseTheorems

namespace Automation

variable {σ τ α α' β β' ρ ρ' : Type}

/-- What is alike. -/
structure Likeness (σ τ : Type) where
  states : σ → τ → Prop
  /-- What steps from like states come to. -/
  steps : σ → τ → σ → τ → Prop
  waits : Wait → Wait → Prop

namespace Process

/-- The two processes go alike, and come to results that are alike. -/
def Alike (l : Likeness σ τ) (results : α → β → Prop) : Process σ α → Process τ β → Prop
  | done a, done b => results a b
  | act change next, act change' next' => ∀ s t, l.states s t →
    l.steps s t (change s) (change' t) ∧ (next s).Alike l results (next' t)
  | locked change next, locked change' next' => ∀ s t, l.states s t →
    l.steps s t (change s) (change' t) ∧ (next s).Alike l results (next' t)
  | spend pieces next, spend pieces' next' => pieces = pieces' ∧ next.Alike l results next'
  | await wait next, await wait' next' =>
    l.waits wait wait' ∧ ∀ wake, (next wake).Alike l results (next' wake)
  | _, _ => False

variable {l : Likeness σ τ} {results : α → β → Prop} {results' : α' → β' → Prop}

theorem Alike.mono {weaker : α → β → Prop} (h : ∀ a b, results a b → weaker a b) :
    ∀ {p : Process σ α} {p' : Process τ β}, p.Alike l results p' → p.Alike l weaker p'
  | done a, done b, hp => h a b hp
  | act _ _, act _ _, hp => fun s t hs => ⟨(hp s t hs).1, (hp s t hs).2.mono h⟩
  | locked _ _, locked _ _, hp => fun s t hs => ⟨(hp s t hs).1, (hp s t hs).2.mono h⟩
  | spend _ next, spend _ next', hp =>
    have hnext : next.Alike l results next' := hp.2
    ⟨hp.1, hnext.mono h⟩
  | await _ _, await _ _, hp => ⟨hp.1, fun wake => (hp.2 wake).mono h⟩

/-- Sequences go alike if their parts do. -/
theorem Alike.bind {k : α → Process σ α'} {k' : β → Process τ β'}
    (hk : ∀ a b, results a b → (k a).Alike l results' (k' b)) :
    ∀ {p : Process σ α} {p' : Process τ β}, p.Alike l results p' →
      (p >>= k).Alike l results' (p' >>= k')
  | done a, done b, hp => hk a b hp
  | act _ _, act _ _, hp => fun s t hs => ⟨(hp s t hs).1, (hp s t hs).2.bind hk⟩
  | locked _ _, locked _ _, hp => fun s t hs => ⟨(hp s t hs).1, (hp s t hs).2.bind hk⟩
  | spend _ next, spend _ next', hp =>
    have hnext : next.Alike l results next' := hp.2
    ⟨hp.1, hnext.bind hk⟩
  | await _ _, await _ _, hp => ⟨hp.1, fun wake => (hp.2 wake).bind hk⟩

theorem alike_done {a : α} {b : β} (h : results a b) :
    (done a : Process σ α).Alike l results (done b : Process τ β) := h

/-- Two choices that are made alike. -/
theorem alike_ite {c c' : Prop} [Decidable c] [Decidable c'] {p q : Process σ α}
    {p' q' : Process τ β} (hc : c ↔ c') (hp : p.Alike l results p') (hq : q.Alike l results q') :
    (if c then p else q).Alike l results (if c' then p' else q') := by
  by_cases h : c
  · rwa [if_pos h, if_pos (hc.mp h)]
  · rwa [if_neg h, if_neg (hc.not.mp h)]

theorem alike_step {f : σ → α × σ} {g : τ → β × τ}
    (h : ∀ s t, l.states s t → l.steps s t (f s).2 (g t).2 ∧ results (f s).1 (g t).1) :
    (step f).Alike l results (step g) := h

theorem alike_stepLocked {f : σ → α × σ} {g : τ → β × τ}
    (h : ∀ s t, l.states s t → l.steps s t (f s).2 (g t).2 ∧ results (f s).1 (g t).1) :
    (stepLocked f).Alike l results (stepLocked g) := h

section

variable (hlook : ∀ s t, l.states s t → l.steps s t s t)

include hlook

theorem alike_readLocked {f : σ → α} {g : τ → β}
    (h : ∀ s t, l.states s t → results (f s) (g t)) :
    (readLocked f).Alike l results (readLocked g) :=
  fun s t hs => ⟨hlook s t hs, h s t hs⟩

/-- Looking at like states and going on. -/
theorem alike_read_bind {f : σ → α} {g : τ → β} {k : α → Process σ α'} {k' : β → Process τ β'}
    (h : ∀ s t, l.states s t → (k (f s)).Alike l results' (k' (g t))) :
    (read f >>= k).Alike l results' (read g >>= k') :=
  fun s t hs => ⟨hlook s t hs, h s t hs⟩

end

theorem alike_pause {wait wait' : Wait} (h : l.waits wait wait') :
    (pause wait : Process σ Wake).Alike l Eq (pause wait' : Process τ Wake) :=
  ⟨h, fun _ => rfl⟩

end Process

/-! ## Turns -/

/-- The outcomes of two turns are alike. -/
inductive Outcome.Alike (l : Likeness σ τ) (results : α → β → Prop) :
    Outcome σ α → Outcome τ β → Prop where
  | ended {a : α} {b : β} : results a b → Alike l results (.ended a) (.ended b)
  | waits {p : Process σ α} {q : Process τ β} :
    p.Alike l results q → Alike l results (.waits p) (.waits q)
  | yields {p : Process σ α} {q : Process τ β} (locks : Bool) :
    p.Alike l results q → Alike l results (.yields p locks) (.yields q locks)
  | lines {p : Process σ α} {q : Process τ β} :
    p.Alike l results q → Alike l results (.lines p) (.lines q)

/-- Two turns that end alike, with equal shares left, in like states. -/
structure Turn.Alike (l : Likeness σ τ) (results : α → β → Prop) (u : Turn σ α) (u' : Turn τ β) :
    Prop where
  outcome : u.outcome.Alike l results u'.outcome
  left : u.left = u'.left
  state : l.states u.state u'.state

/-- Like steps lead to like states, and like waits end alike there. -/
structure Likeness.Steady (l : Likeness σ τ) (signals : σ → Signals) (signals' : τ → Signals) :
    Prop where
  steps : ∀ {s t s' t'}, l.states s t → l.steps s t s' t' → l.states s' t'
  wake? : ∀ {wait wait' s t}, l.waits wait wait' → l.states s t →
    wait.wake? (signals s) = wait'.wake? (signals' t)
  price : ∀ {wait wait'}, l.waits wait wait' → ∀ wake, wait.price wake = wait'.price wake

namespace Process

variable {l : Likeness σ τ} {results : α → β → Prop}

/-- **In one turn two alike processes come equally far.** -/
theorem Alike.turn {signals : σ → Signals} {signals' : τ → Signals} (hl : l.Steady signals signals') :
    ∀ {p : Process σ α} {p' : Process τ β} (left : Nat) (access : Access) {s : σ} {t : τ},
      p.Alike l results p' → l.states s t →
      (p.turn signals left access s).Alike l results (p'.turn signals' left access t)
  | done _, done _, _, _, _, _, hp, hs => ⟨.ended hp, rfl, hs⟩
  | act _ _, act _ _, left, access, s, t, hp, hs =>
    (hp s t hs).2.turn hl left access (hl.steps hs (hp s t hs).1)
  | locked _ _, locked _ _, left, access, s, t, hp, hs => by
    have hs' := hl.steps hs (hp s t hs).1
    unfold Process.turn
    cases access with
    | taken => exact ⟨.lines hp, rfl, hs⟩
    | own wanted => exact (hp s t hs).2.turn hl _ _ hs'
    | free =>
      dsimp only
      split
      · exact ⟨.yields true hp, rfl, hs⟩
      · exact (hp s t hs).2.turn hl _ _ hs'
  | spend pieces next, spend _ next', left, access, s, t, hp, hs => by
    obtain ⟨rfl, hnext⟩ : pieces = _ ∧ next.Alike l results next' := hp
    exact hnext.turn hl (left - pieces) access hs
  | await wait _, await wait' _, left, access, s, t, hp, hs => by
    unfold Process.turn
    split
    · exact ⟨.yields false hp, rfl, hs⟩
    · rw [hl.wake? hp.1 hs]
      cases wait'.wake? (signals' t) with
      | none => exact ⟨.waits hp, rfl, hs⟩
      | some wake =>
        dsimp only
        rw [hl.price hp.1 wake]
        exact (hp.2 wake).turn hl _ access hs

/-- Fewer states are alike, and steps from those come to more. -/
theorem Alike.restrict {l' : Likeness σ τ} (hstates : ∀ s t, l'.states s t → l.states s t)
    (hsteps : ∀ s t s' t', l'.states s t → l.steps s t s' t' → l'.steps s t s' t')
    (hwaits : ∀ wait wait', l.waits wait wait' → l'.waits wait wait') :
    ∀ {p : Process σ α} {p' : Process τ β}, p.Alike l results p' → p.Alike l' results p'
  | done _, done _, hp => hp
  | act _ _, act _ _, hp => fun s t hs =>
    have hp' := hp s t (hstates s t hs)
    ⟨hsteps _ _ _ _ hs hp'.1, hp'.2.restrict hstates hsteps hwaits⟩
  | locked _ _, locked _ _, hp => fun s t hs =>
    have hp' := hp s t (hstates s t hs)
    ⟨hsteps _ _ _ _ hs hp'.1, hp'.2.restrict hstates hsteps hwaits⟩
  | spend _ next, spend _ next', hp =>
    have hnext : next.Alike l results next' := hp.2
    ⟨hp.1, hnext.restrict hstates hsteps hwaits⟩
  | await _ _, await _ _, hp =>
    ⟨hwaits _ _ hp.1, fun wake => (hp.2 wake).restrict hstates hsteps hwaits⟩

end Process

/-! ## Courses -/

/-- Like states stay alike, whatever the others do, at a lock as well as at like
waits when both are over; and both end alike. -/
structure Likeness.Meets (l : Likeness σ τ) (c : Company σ) (c' : Company τ) : Prop where
  steps : ∀ {s t s' t'}, l.states s t → l.steps s t s' t' → l.states s' t'
  lock : ∀ {s t s' t'}, l.states s t → c.others none s s' → c'.others none t t' → l.states s' t'
  wait : ∀ {wait wait' s t s' t' wake wake'}, l.waits wait wait' → l.states s t →
    c.others (some wait) s s' → c'.others (some wait') t t' →
    wait.wake? (c.signals s') = some wake → wait'.wake? (c'.signals t') = some wake' →
    wake = wake' ∧ l.states s' t'

namespace Process

variable {l : Likeness σ τ} {results : α → β → Prop} {c : Company σ} {c' : Company τ}

/-- From like states on, two alike processes come to like results, each of them
in its own company. -/
theorem Alike.meets (hm : l.Meets c c') : ∀ {p : Process σ α} {p' : Process τ β} {s : σ} {t : τ},
    p.Alike l results p' → l.states s t →
      p.Holds c (fun _ => True) (fun a s => p'.Holds c' (fun _ => True)
        (fun b t => results a b ∧ l.states s t) t) s
  | done _, done _, _, _, hp, hs => ⟨trivial, trivial, hp, hs⟩
  | act _ _, act _ _, s, t, hp, hs => by
    have hnext := (hp s t hs).2.meets hm (hm.steps hs (hp s t hs).1)
    exact ⟨trivial, hnext.mono fun _ _ h => ⟨trivial, h⟩⟩
  | locked change next, locked change' next', s, t, hp, hs => by
    intro s₁ ho
    -- for each state in which the other one may come to have the lock
    have hnext : (next s₁).Holds c (fun _ => True) (fun a s₂ =>
        ∀ t₁ : { t₁ // c'.others none t t₁ }, (next' t₁.1).Holds c' (fun _ => True)
          (fun b t => results a b ∧ l.states s₂ t) (change' t₁.1)) (change s₁) := by
      refine holds_forall fun t₁ => ?_
      have hs₁ := hm.lock hs ho t₁.2
      exact (hp s₁ t₁.1 hs₁).2.meets hm (hm.steps hs₁ (hp s₁ t₁.1 hs₁).1)
    exact ⟨trivial, hnext.mono fun _ _ h t₁ ho' => ⟨trivial, h ⟨t₁, ho'⟩⟩⟩
  | spend _ next, spend _ next', s, t, hp, hs => by
    have hnext : next.Alike l results next' := hp.2
    exact hnext.meets hm hs
  | await _ next, await wait' next', s, t, hp, hs => by
    intro s₁ ho
    refine ⟨trivial, fun wake hw => ?_⟩
    -- and for each state in which its wait is over
    have hnext : (next wake).Holds c (fun _ => True) (fun a s₂ =>
        ∀ woken : { woken : τ × Wake // c'.others (some wait') t woken.1 ∧
            wait'.wake? (c'.signals woken.1) = some woken.2 },
          (next' woken.1.2).Holds c' (fun _ => True)
            (fun b t => results a b ∧ l.states s₂ t) woken.1.1) s₁ := by
      refine holds_forall fun ⟨⟨t₁, wake'⟩, ho', hw'⟩ => ?_
      obtain ⟨rfl, hs₁⟩ := hm.wait hp.1 hs ho ho' hw hw'
      exact (hp.2 wake).meets hm hs₁
    exact hnext.mono fun _ _ h t₁ ho' =>
      ⟨trivial, fun wake' hw' => h ⟨(t₁, wake'), ho', hw'⟩⟩

end Process

/-! ## Alike to itself -/

/-- Like states are equal states with an invariant, and each step is `ok`. -/
def Likeness.self (inv : σ → Prop) (ok : σ → σ → Prop) : Likeness σ σ where
  states s t := s = t ∧ inv s
  steps s _ s' t' := s' = t' ∧ ok s s'
  waits := Eq

namespace Process

/-- What a process does that is alike to itself. -/
theorem Alike.does {ok : σ → σ → Prop} {results : α → β → Prop} :
    ∀ {p : Process σ α} {p' : Process σ β}, p.Alike (.self (fun _ => True) ok) results p' →
      p.Does ok
  | done _, done _, _ => trivial
  | act _ _, act _ _, hp => fun s =>
    ⟨(hp s s ⟨rfl, trivial⟩).1.2, (hp s s ⟨rfl, trivial⟩).2.does⟩
  | locked _ _, locked _ _, hp => fun s =>
    ⟨(hp s s ⟨rfl, trivial⟩).1.2, (hp s s ⟨rfl, trivial⟩).2.does⟩
  | spend _ next, spend _ next', hp =>
    have hnext : next.Alike (.self (fun _ => True) ok) results next' := hp.2
    hnext.does
  | await _ _, await _ _, hp => fun wake => (hp.2 wake).does

end Process

/-! ## Walks -/

/-- Two visits come to like ends, and go on to the same nodes. -/
inductive Onward.Alike (between : α → β → Prop) (halted : ρ → ρ' → Prop) :
    α × Onward ρ → β × Onward ρ' → Prop where
  | follow {a : α} {b : β} (targets : List String) : between a b →
    Alike between halted (a, .follow targets) (b, .follow targets)
  | halt {a : α} {b : β} {reason : ρ} {reason' : ρ'} : between a b → halted reason reason' →
    Alike between halted (a, .halt reason) (b, .halt reason')

/-- Walks go alike if their visits do. -/
theorem alike_walk {l : Likeness σ τ} {between : α → β → Prop} {halted : ρ → ρ' → Prop}
    {visit : String → α → Process σ (α × Onward ρ)} {visit' : String → β → Process τ (β × Onward ρ')}
    (hvisit : ∀ id a b, between a b →
      (visit id a).Alike l (Onward.Alike between halted) (visit' id b)) :
    ∀ (budget : Nat) (marked stack : List String) {a : α} {b : β}, between a b →
      (walk visit budget marked stack a).Alike l
        (fun r r' => between r.1 r'.1 ∧ Option.Rel halted r.2 r'.2)
        (walk visit' budget marked stack b)
  | 0, _, _, _, _, hab => ⟨hab, .none⟩
  | budget + 1, marked, stack, a, b, hab => by
    unfold walk
    cases stack.dropWhile marked.contains with
    | nil => exact ⟨hab, .none⟩
    | cons id rest =>
      refine (hvisit id a b hab).bind ?_
      rintro _ _ (⟨targets, hab'⟩ | ⟨hab', hreason⟩)
      · exact alike_walk hvisit budget _ _ hab'
      · exact ⟨hab', .some hreason⟩

end Automation
