/-
Automation.Proofs.Engine.CompanyTheorems — processes in company.

A process has its state to itself until it comes to a lock or to a wait;
there the others may change it. `Process.Ends` are the runs of a process
among others that change the state within a given relation: between two
such places the process goes on alone, and a wait goes on as something has
ended it.

What holds of all these runs is proved by `Process.Keeps`, which is
computed along the process and so composes: what a sequence keeps is what
the first part keeps, to the effect that the second one can take over
(`keeps_bind`). A `Pact` says what the process counts on and what it
vouches for. Besides the state it has a note, which only the others write:
it stands for what a run has to remember of them and no state tells.

* `Ends.of_keeps` — a kept postcondition holds at the end of every run.
* `Keeps.company` — at a lock or a wait it is kept whatever the others do.
* `Keeps.turn` — a turn of the process leads from what is kept to what is
  kept, and is in itself vouched for.
* `keeps_walk` — the rule for walks, from one invariant of marks and stack.
-/
import Automation.Proofs.Engine.WalkTheorems

namespace Automation

open Process

variable {σ γ α β ρ : Type}

/-! ## Runs in company -/

/-- The runs of a process among others: from which state they lead to
which result, and in which state. -/
inductive Process.Ends (signals : σ → Signals) (others : σ → σ → Prop) :
    Process σ α → σ → α → σ → Prop where
  | done (a : α) (s : σ) : Ends signals others (.done a) s a s
  | act {change : σ → σ} {next : σ → Process σ α} {s : σ} {a : α} {s' : σ} :
      Ends signals others (next s) (change s) a s' → Ends signals others (.act change next) s a s'
  | locked {change : σ → σ} {next : σ → Process σ α} {s s₁ : σ} {a : α} {s' : σ} :
      others s s₁ → Ends signals others (next s₁) (change s₁) a s' →
      Ends signals others (.locked change next) s a s'
  | spend {pieces : Nat} {next : Process σ α} {s : σ} {a : α} {s' : σ} :
      Ends signals others next s a s' → Ends signals others (.spend pieces next) s a s'
  | await {wait : Wait} {next : Wake → Process σ α} {s s₁ : σ} {wake : Wake} {a : α} {s' : σ} :
      others s s₁ → wait.wake? (signals s₁) = some wake →
      Ends signals others (next wake) s₁ a s' → Ends signals others (.await wait next) s a s'

/-! ## What a process keeps -/

/-- Where a process is while others go on: at a lock, at a wait, or before
its first turn. -/
inductive Place where
  | start | lock | wait
  deriving DecidableEq, Repr

def Process.place : Process σ α → Place
  | locked _ _ => .lock
  | await _ _ => .wait
  | _ => .start

/-- What a process and the others keep to. -/
structure Pact (σ γ : Type) where
  signals : σ → Signals
  /-- What the others do while the process is at such a place. -/
  others : Place → σ → γ → σ → γ → Prop
  /-- What the process itself does, in the light of the note. -/
  own : γ → σ → σ → Prop
  others_refl : ∀ place s g, others place s g s g
  others_trans : ∀ place s g s₁ g₁ s₂ g₂,
    others place s g s₁ g₁ → others place s₁ g₁ s₂ g₂ → others place s g s₂ g₂
  own_refl : ∀ g s, own g s s
  own_trans : ∀ g s s₁ s₂, own g s s₁ → own g s₁ s₂ → own g s s₂

namespace Process

/-- From this state on, with others that keep to the pact, the process
keeps to it as well, and every result has `post`. -/
def Keeps (pact : Pact σ γ) (post : α → σ → γ → Prop) : Process σ α → σ → γ → Prop
  | done a, s, g => post a s g
  | act change next, s, g =>
    pact.own g s (change s) ∧ (next s).Keeps pact post (change s) g
  | locked change next, s, g => ∀ s₁ g₁, pact.others .lock s g s₁ g₁ →
    pact.own g₁ s₁ (change s₁) ∧ (next s₁).Keeps pact post (change s₁) g₁
  | spend _ next, s, g => next.Keeps pact post s g
  | await wait next, s, g => ∀ s₁ g₁ wake, pact.others .wait s g s₁ g₁ →
    wait.wake? (pact.signals s₁) = some wake → (next wake).Keeps pact post s₁ g₁

variable {pact : Pact σ γ}

theorem Keeps.mono {post post' : α → σ → γ → Prop} (h : ∀ a s g, post a s g → post' a s g) :
    ∀ {p : Process σ α} {s : σ} {g : γ}, p.Keeps pact post s g → p.Keeps pact post' s g
  | done a, s, g, hp => h a s g hp
  | act _ _, _, _, hp => ⟨hp.1, hp.2.mono h⟩
  | locked _ _, _, _, hp => fun s₁ g₁ ho => ⟨(hp s₁ g₁ ho).1, (hp s₁ g₁ ho).2.mono h⟩
  | spend _ next, _, _, hp => Keeps.mono (p := next) h hp
  | await _ _, _, _, hp => fun s₁ g₁ wake ho hw => (hp s₁ g₁ wake ho hw).mono h

/-- What one process after the other keeps. -/
theorem keeps_bind {post : β → σ → γ → Prop} {k : α → Process σ β} :
    ∀ {p : Process σ α} {s : σ} {g : γ},
      (p >>= k).Keeps pact post s g ↔ p.Keeps pact (fun a s g => (k a).Keeps pact post s g) s g
  | done _, _, _ => Iff.rfl
  | act _ _, _, _ => and_congr Iff.rfl keeps_bind
  | locked _ _, _, _ => forall₃_congr fun _ _ _ => and_congr Iff.rfl keeps_bind
  | spend _ next, _, _ => keeps_bind (p := next)
  | await _ _, _, _ => forall₅_congr fun _ _ _ _ _ => keeps_bind

theorem keeps_done {post : α → σ → γ → Prop} {a : α} {s : σ} {g : γ} (h : post a s g) :
    (done a).Keeps pact post s g := h

theorem keeps_read {post : α → σ → γ → Prop} {f : σ → α} {s : σ} {g : γ} (h : post (f s) s g) :
    (read f).Keeps pact post s g :=
  ⟨pact.own_refl g s, h⟩

theorem keeps_stepLocked {post : α → σ → γ → Prop} {f : σ → α × σ} {s : σ} {g : γ}
    (h : ∀ s₁ g₁, pact.others .lock s g s₁ g₁ →
      pact.own g₁ s₁ (f s₁).2 ∧ post (f s₁).1 (f s₁).2 g₁) : (stepLocked f).Keeps pact post s g := h

/-- What the others never take back stays noted. -/
theorem Keeps.noting {note : γ → Prop} {post : α → σ → γ → Prop}
    (h : ∀ place s g s₁ g₁, pact.others place s g s₁ g₁ → note g → note g₁) :
    ∀ {p : Process σ α} {s : σ} {g : γ}, p.Keeps pact post s g → note g →
      p.Keeps pact (fun a s g => post a s g ∧ note g) s g
  | done _, _, _, hp, hg => ⟨hp, hg⟩
  | act _ _, _, _, hp, hg => ⟨hp.1, hp.2.noting h hg⟩
  | locked _ _, _, _, hp, hg => fun s₁ g₁ ho =>
    ⟨(hp s₁ g₁ ho).1, (hp s₁ g₁ ho).2.noting h (h _ _ _ _ _ ho hg)⟩
  | spend _ next, _, _, hp, hg => Keeps.noting (p := next) h hp hg
  | await _ _, _, _, hp, hg => fun s₁ g₁ wake ho hw =>
    (hp s₁ g₁ wake ho hw).noting h (h _ _ _ _ _ ho hg)

/-- A process keeps to another pact as well: at what it depends on, `inv`,
the others there are others here, and what it may do here it may do there. -/
theorem Keeps.carry {γ' : Type} {pact' : Pact σ γ'} {g : γ} {post : α → σ → γ → Prop}
    (inv : σ → Prop) (hsignals : pact'.signals = pact.signals)
    (hothers : ∀ place s s₁ g' g₁, inv s → pact'.others place s g' s₁ g₁ →
      pact.others place s g s₁ g ∧ inv s₁)
    (hown : ∀ s s₁ g', inv s → pact.own g s s₁ → pact'.own g' s s₁ ∧ inv s₁) :
    ∀ {p : Process σ α} {s : σ} {g' : γ'}, p.Keeps pact post s g → inv s →
      p.Keeps pact' (fun a s _ => post a s g ∧ inv s) s g'
  | done _, _, _, hp, hi => ⟨hp, hi⟩
  | act _ _, s, g', hp, hi => by
    obtain ⟨hdo, hi'⟩ := hown s _ g' hi hp.1
    exact ⟨hdo, hp.2.carry inv hsignals hothers hown hi'⟩
  | locked _ _, s, g', hp, hi => fun s₁ g₁ ho => by
    obtain ⟨ho', hi₁⟩ := hothers _ _ _ _ _ hi ho
    obtain ⟨hdo, hi'⟩ := hown s₁ _ g₁ hi₁ (hp s₁ g ho').1
    exact ⟨hdo, (hp s₁ g ho').2.carry inv hsignals hothers hown hi'⟩
  | spend _ next, _, _, hp, hi => Keeps.carry (p := next) inv hsignals hothers hown hp hi
  | await _ _, _, _, hp, hi => fun s₁ g₁ wake ho hw => by
    obtain ⟨ho', hi₁⟩ := hothers _ _ _ _ _ hi ho
    exact (hp s₁ g wake ho' (hsignals ▸ hw)).carry inv hsignals hothers hown hi₁

/-! ## Adequacy -/

/-- What is kept in any company holds at the end of every run. -/
theorem Ends.of_keeps {signals : σ → Signals} {others : σ → σ → Prop} {g : γ}
    (hsignals : pact.signals = signals)
    (hothers : ∀ place s s₁, others s s₁ → pact.others place s g s₁ g)
    {post : α → σ → γ → Prop} {p : Process σ α} {s s' : σ} {a : α}
    (h : p.Ends signals others s a s') : p.Keeps pact post s g → post a s' g := by
  induction h with
  | done a s => exact id
  | act _ ih => exact fun hp => ih hp.2
  | locked ho _ ih => exact fun hp => ih (hp _ _ (hothers _ _ _ ho)).2
  | spend _ ih => exact ih
  | await ho hw _ ih => exact fun hp => ih (hp _ _ _ (hothers _ _ _ ho) (hsignals ▸ hw))

/-- What always holds of the results holds at the end of every run. -/
theorem Ends.of_always {signals : σ → Signals} {others : σ → σ → Prop} {post : α → Prop}
    {p : Process σ α} {s s' : σ} {a : α} (h : p.Ends signals others s a s') :
    p.Always post → post a := by
  induction h with
  | done a s => exact id
  | act _ ih => exact fun hp => ih (hp _)
  | locked _ _ ih => exact fun hp => ih (hp _)
  | spend _ ih => exact ih
  | await _ _ _ ih => exact fun hp => ih (hp _)

/-- A turn to the end of a process is a run of it. -/
theorem Ends.of_turn {signals : σ → Signals} {others : σ → σ → Prop} (hothers : ∀ s, others s s)
    {a : α} : ∀ {p : Process σ α} (left : Nat) (access : Access) {s : σ},
      (p.turn signals left access s).outcome = .ended a →
      p.Ends signals others s a (p.turn signals left access s).state
  | .done b, _, _, s, h => by
    cases h
    exact .done a s
  | .act _ _, left, access, _, h => .act (Ends.of_turn hothers left access h)
  | .locked change next, left, access, s, h => by
    unfold Process.turn at h ⊢
    cases access with
    | taken => cases h
    | own wanted => exact .locked (hothers s) (Ends.of_turn hothers _ _ h)
    | free =>
      dsimp only at h ⊢
      split at h
      · cases h
      · next hleft =>
        rw [if_neg hleft]
        exact .locked (hothers s) (Ends.of_turn hothers _ _ h)
  | .spend pieces next, left, access, _, h =>
    .spend (Ends.of_turn hothers (left - pieces) access (p := next) h)
  | .await wait next, left, access, s, h => by
    unfold Process.turn at h ⊢
    split at h
    · cases h
    · next hleft =>
      cases hw : wait.wake? (signals s) with
      | none =>
        rw [hw] at h
        cases h
      | some wake =>
        rw [hw] at h
        rw [if_neg hleft]
        exact .await (hothers s) hw (Ends.of_turn hothers _ _ h)

/-- Whether a process has come to a lock or to a wait. -/
def AtStop : Process σ α → Prop
  | locked _ _ => True
  | await _ _ => True
  | _ => False

theorem atStop_of_wait? : ∀ {p : Process σ α}, p.wait?.isSome = true → p.AtStop
  | await _ _, _ => trivial

/-- At a lock or a wait the others do no harm. -/
theorem Keeps.company {post : α → σ → γ → Prop} {s s₁ : σ} {g g₁ : γ} :
    ∀ {p : Process σ α}, p.AtStop → pact.others p.place s g s₁ g₁ →
      p.Keeps pact post s g → p.Keeps pact post s₁ g₁
  | locked _ _, _, ho, hp => fun s₂ g₂ ho₂ =>
    hp s₂ g₂ (pact.others_trans _ _ _ _ _ _ _ ho ho₂)
  | await _ _, _, ho, hp => fun s₂ g₂ wake ho₂ =>
    hp s₂ g₂ wake (pact.others_trans _ _ _ _ _ _ _ ho ho₂)

/-- The process keeps to the pact whenever it goes on. -/
def Rests (pact : Pact σ γ) (post : α → σ → γ → Prop) (p : Process σ α) (s : σ) (g : γ) : Prop :=
  ∀ s₁ g₁, pact.others p.place s g s₁ g₁ → p.Keeps pact post s₁ g₁

theorem Rests.keeps {post : α → σ → γ → Prop} {p : Process σ α} {s : σ} {g : γ}
    (h : p.Rests pact post s g) : p.Keeps pact post s g :=
  h s g (pact.others_refl _ s g)

theorem Rests.company {post : α → σ → γ → Prop} {p : Process σ α} {s s₁ : σ} {g g₁ : γ}
    (h : p.Rests pact post s g) (ho : pact.others p.place s g s₁ g₁) :
    p.Rests pact post s₁ g₁ :=
  fun s₂ g₂ ho₂ => h s₂ g₂ (pact.others_trans _ _ _ _ _ _ _ ho ho₂)

theorem Keeps.rests {post : α → σ → γ → Prop} {p : Process σ α} {s : σ} {g : γ}
    (h : p.Keeps pact post s g) (hp : p.AtStop) : p.Rests pact post s g :=
  fun _ _ ho => h.company hp ho

/-- What a turn makes of a process that keeps to a pact. -/
def Outcome.Keeps (pact : Pact σ γ) (post : α → σ → γ → Prop) (outcome : Outcome σ α) (s : σ)
    (g : γ) : Prop :=
  match outcome with
  | .ended a => post a s g
  | .waits p => p.AtStop ∧ p.Keeps pact post s g
  | .yields p _ => p.AtStop ∧ p.Keeps pact post s g
  | .lines p => p.AtStop ∧ p.Keeps pact post s g

/-- What is left of a process that has not ended goes on to keep to the pact. -/
theorem Outcome.Keeps.rests {post : α → σ → γ → Prop} {outcome : Outcome σ α} {s : σ} {g : γ}
    (h : Outcome.Keeps pact post outcome s g) (hgoes : ∀ a, outcome ≠ .ended a) :
    outcome.rest.Rests pact post s g := by
  cases outcome with
  | ended a => exact absurd rfl (hgoes a)
  | waits p => exact h.2.rests h.1
  | yields p locks => exact h.2.rests h.1
  | lines p => exact h.2.rests h.1

/-- A turn of a process that keeps to a pact: what it does is vouched for,
and what is left of the process keeps to the pact. -/
theorem Keeps.turn {post : α → σ → γ → Prop} {g : γ} :
    ∀ {p : Process σ α} (left : Nat) (access : Access) {s : σ}, p.Keeps pact post s g →
      pact.own g s (p.turn pact.signals left access s).state ∧
      Outcome.Keeps pact post (p.turn pact.signals left access s).outcome
        (p.turn pact.signals left access s).state g
  | done _, _, _, s, hp => ⟨pact.own_refl g s, hp⟩
  | act change next, left, access, s, hp => by
    have ih := Keeps.turn left access hp.2
    exact ⟨pact.own_trans _ _ _ _ hp.1 ih.1, ih.2⟩
  | locked change next, left, access, s, hp => by
    have hnow := hp s g (pact.others_refl _ s g)
    unfold Process.turn
    cases access with
    | taken => exact ⟨pact.own_refl g s, trivial, hp⟩
    | own wanted =>
      have ih := Keeps.turn (left - 1) (if wanted then .taken else .free) hnow.2
      exact ⟨pact.own_trans _ _ _ _ hnow.1 ih.1, ih.2⟩
    | free =>
      dsimp only
      split
      · exact ⟨pact.own_refl g s, trivial, hp⟩
      · have ih := Keeps.turn (left - 1) .free hnow.2
        exact ⟨pact.own_trans _ _ _ _ hnow.1 ih.1, ih.2⟩
  | spend pieces next, left, access, s, hp =>
    Keeps.turn (p := next) (left - pieces) access hp
  | await wait next, left, access, s, hp => by
    unfold Process.turn
    split
    · exact ⟨pact.own_refl g s, trivial, hp⟩
    · cases hw : wait.wake? (pact.signals s) with
      | none => exact ⟨pact.own_refl g s, trivial, hp⟩
      | some wake => exact Keeps.turn _ access (hp s g wake (pact.others_refl _ s g) hw)

end Process

/-! ## Walks -/

/-- **Walks in company.** `inv marked stack a` holds between two visits;
`post` is what holds in the end. A walk that is given visits enough goes on
until its stack is empty, if it is not halted. -/
theorem keeps_walk {pact : Pact σ γ} {visit : String → α → Process σ (α × Onward ρ)}
    {nodes : List String} {post : α × Option ρ → σ → γ → Prop} (enough : Prop)
    (inv : List String → List String → α → σ → γ → Prop)
    (hnodes : enough → ∀ marked stack a s g, inv marked stack a s g → stack ⊆ nodes)
    (hskip : ∀ marked id rest a s g, marked.contains id = true →
      inv marked (id :: rest) a s g → inv marked rest a s g)
    (hend : ∀ marked stack a s g, (enough → stack = []) → inv marked stack a s g →
      post (a, none) s g)
    (hvisit : ∀ marked id rest a s g, marked.contains id = false →
      inv marked (id :: rest) a s g →
      (visit id a).Keeps pact (fun (a, onward) s g =>
        match onward with
        | .follow targets =>
          inv (id :: marked) (targets.filter (fun t => !(id :: marked).contains t) ++ rest) a s g
        | .halt reason => post (a, some reason) s g) s g) :
    ∀ (budget : Nat) (marked stack : List String) (a : α) (s : σ) (g : γ),
      (enough → unmarked nodes marked ≤ budget) → inv marked stack a s g →
      (walk visit budget marked stack a).Keeps pact post s g := by
  intro budget
  induction budget with
  | zero =>
    intro marked stack a s g hb hi
    by_cases he : enough
    · induction stack with
      | nil => exact hend marked [] a s g (fun _ => rfl) hi
      | cons id rest ihs =>
        have hid : marked.contains id = true := by
          rw [← Bool.not_eq_false]
          intro h
          have := unmarked_cons_lt (hnodes he _ _ _ _ _ hi List.mem_cons_self) h
          have := hb he
          omega
        exact ihs (hskip _ _ _ _ _ _ hid hi)
    · exact hend marked stack a s g (fun h => absurd h he) hi
  | succ budget ih =>
    intro marked stack a s g hb hi
    induction stack with
    | nil => exact hend marked [] a s g (fun _ => rfl) hi
    | cons id rest ihs =>
      cases h : marked.contains id with
      | true =>
        rw [walk_marked visit h]
        exact ihs (hskip _ _ _ _ _ _ h hi)
      | false =>
        rw [walk_unmarked visit h, keeps_bind]
        refine (hvisit _ _ _ _ _ _ h hi).mono ?_
        rintro ⟨a, onward⟩ s g hon
        cases onward with
        | halt reason => exact hon
        | follow targets =>
          refine ih _ _ _ _ _ ?_ hon
          intro he
          have := unmarked_cons_lt (hnodes he _ _ _ _ _ hi List.mem_cons_self) h
          have := hb he
          omega

end Automation
