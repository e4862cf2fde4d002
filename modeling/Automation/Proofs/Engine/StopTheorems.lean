/-
Automation.Proofs.Engine.StopTheorems — how often a process comes to a lock
or to a wait.

`Process.Within ok p n`: on every path `p` comes to `n` locks and waits at
most, and its waits are all `ok`. The numbers of two processes add up
(`Within.bind`), so the number of a driver is read off its text: an attempt
has two waits, the pause before another attempt is one more, and a node is
handed in twice. `Engine.within_drive` and `Engine.within_execute` compare
the sums with what the schedule reckons with (`Engine.stops`).

`Process.depth` is the least such number. A turn does not increase it, and
decreases it if the process comes past the place that it is at
(`Within.depth_turn_of_passes`).
-/
import Automation.Proofs.Engine.AttemptTheorems
import Automation.Proofs.Workflow.GraphTheorems
import Mathlib.Order.Lattice.Nat

namespace Automation

open Process

variable {σ α β ρ : Type}

/-! ## Counting stops -/

namespace Process

/-- On every path there are so many locks and waits at most, and all waits
are `ok`. -/
def Within (ok : Wait → Prop) : Process σ α → Nat → Prop
  | done _, _ => True
  | act _ next, n => ∀ s, (next s).Within ok n
  | locked _ _, 0 => False
  | locked _ next, n + 1 => ∀ s, (next s).Within ok n
  | spend _ next, n => next.Within ok n
  | await _ _, 0 => False
  | await wait next, n + 1 => ok wait ∧ ∀ wake, (next wake).Within ok n

theorem Within.mono {ok ok' : Wait → Prop} (hok : ∀ wait, ok wait → ok' wait) {p : Process σ α}
    {m n : Nat} (hp : p.Within ok m) (hn : m ≤ n) : p.Within ok' n := by
  induction p generalizing m n with
  | done a => trivial
  | act change next ih => exact fun s => ih s (hp s) hn
  | spend pieces next ih => exact ih hp hn
  | locked change next ih =>
    obtain _ | m := m
    · exact hp.elim
    · obtain ⟨n, rfl⟩ := Nat.exists_eq_add_of_le' hn
      exact fun s => ih s (hp s) (Nat.le_add_left m n)
  | await wait next ih =>
    obtain _ | m := m
    · exact hp.elim
    · obtain ⟨n, rfl⟩ := Nat.exists_eq_add_of_le' hn
      exact ⟨hok wait hp.1, fun wake => ih wake (hp.2 wake) (Nat.le_add_left m n)⟩

theorem Within.le {ok : Wait → Prop} {p : Process σ α} {m n : Nat} (hp : p.Within ok m)
    (hn : m ≤ n) : p.Within ok n :=
  hp.mono (fun _ => id) hn

theorem Within.wait {ok : Wait → Prop} {n : Nat} {wait : Wait} : ∀ {p : Process σ α},
    p.Within ok n → p.wait? = some wait → ok wait
  | await _ _, hp, hwait => by
    cases hwait
    cases n with
    | zero => exact hp.elim
    | succ n => exact hp.1

/-- The stops of one process after the other. -/
theorem Within.bind {ok : Wait → Prop} {k : α → Process σ β} {n : Nat}
    (hk : ∀ a, (k a).Within ok n) :
    ∀ {p : Process σ α} {m : Nat}, p.Within ok m → (p >>= k).Within ok (m + n)
  | done a, m, _ => (hk a).le (Nat.le_add_left n m)
  | act _ _, _, hp => fun s => (hp s).bind hk
  | locked _ next, m + 1, hp => by
    rw [Nat.succ_add]
    exact fun s => (hp s).bind hk
  | spend _ next, _, hp => Within.bind (p := next) hk hp
  | await _ _, m + 1, hp => by
    rw [Nat.succ_add]
    exact ⟨hp.1, fun wake => (hp.2 wake).bind hk⟩

/-- What is made of a result takes no stop. -/
theorem within_map {ok : Wait → Prop} {f : α → β} :
    ∀ {p : Process σ α} {n : Nat}, (f <$> p).Within ok n ↔ p.Within ok n
  | done _, _ => Iff.rfl
  | act _ _, _ => forall_congr' fun _ => within_map
  | locked _ _, 0 => Iff.rfl
  | locked _ _, _ + 1 => forall_congr' fun _ => within_map
  | spend _ next, _ => within_map (p := next)
  | await _ _, 0 => Iff.rfl
  | await _ _, _ + 1 => and_congr Iff.rfl (forall_congr' fun _ => within_map)

/-- Looking at the state is no stop. -/
theorem Within.read_bind {ok : Wait → Prop} {f : σ → α} {k : α → Process σ β} {n : Nat}
    (hk : ∀ a, (k a).Within ok n) : (read f >>= k).Within ok n :=
  fun s => hk (f s)

end Process

/-- A walk stops as often as its visits do. -/
theorem within_walk {ok : Wait → Prop} {visit : String → α → Process σ (α × Onward ρ)} {n : Nat}
    (hvisit : ∀ id a, (visit id a).Within ok n) :
    ∀ (budget : Nat) (marked stack : List String) (a : α),
      (walk visit budget marked stack a).Within ok (n * budget)
  | 0, _, _, _ => trivial
  | budget + 1, marked, stack, a => by
    unfold walk
    cases stack.dropWhile marked.contains with
    | nil => trivial
    | cons id rest =>
      rw [Nat.mul_succ, Nat.add_comm]
      refine Within.bind ?_ (hvisit id a)
      intro r
      obtain ⟨a, onward⟩ := r
      cases onward with
      | halt reason => trivial
      | follow targets => exact within_walk hvisit budget _ _ _

/-! ## The stops of a driver -/

/-- A node may be attempted once at least. -/
theorem Settings.maxAttempts_pos (settings : Settings) : 1 ≤ settings.maxAttempts := by
  unfold maxAttempts
  split
  · exact Nat.le_max_left ..
  · exact Nat.le_refl 1

/-- The waits of a driver: its token cuts them off, and they are not for the
end of a run. -/
def Wait.CutBy (token : Nat) (wait : Wait) : Prop :=
  wait.token = some token ∧ ∀ id, wait.due ≠ .run id

/-- The wait has a deadline if the time of runs is limited. -/
def Wait.Limited (settings : Settings) (wait : Wait) : Prop :=
  settings.timeout.isSome = true → wait.deadline.isSome = true

/-- What the wait is for comes by itself. -/
def Wait.Comes (wait : Wait) : Prop :=
  wait.due = .nothing ∨ ∃ t, wait.due = .instant t

/-- No attempt at a node of the workflow hangs. -/
def Executors.Prompt (executors : Executors) (w : Workflow) : Prop :=
  ∀ node ∈ w.nodes, ∀ executor, executors node.type = some executor →
    ∀ around services, (executor node around services).1.finish.isSome = true

/-- The waits of a driver: its token and its deadline cut them off, and they
are not for the end of a run. What they are for comes if no attempt hangs. -/
structure Driver.Waits (d : Driver) (wait : Wait) : Prop where
  cutBy : wait.CutBy d.token
  deadline : wait.deadline = d.deadline
  comes : d.executors.Prompt d.workflow → wait.Comes

namespace Driver

variable (d : Driver)

theorem within_save {ok : Wait → Prop} (run : Run) : (save run).Within ok 1 := fun _ => trivial

theorem within_pause {due : Due} (h : ∀ id, due ≠ .run id)
    (hcomes : d.executors.Prompt d.workflow → due = .nothing ∨ ∃ t, due = .instant t) :
    (d.pause due).Within d.Waits 1 :=
  ⟨⟨⟨rfl, h⟩, rfl, hcomes⟩, fun _ => trivial⟩

theorem within_sleep (ms : Nat) : (d.sleep ms).Within d.Waits 1 :=
  Within.read_bind fun _ => d.within_pause (by simp) fun _ => Or.inr ⟨_, rfl⟩

theorem within_awaitEnd (log : Logger) (finish : Option Finish)
    (hfinish : d.executors.Prompt d.workflow → finish.isSome = true) :
    (d.awaitEnd log finish).Within d.Waits 1 := by
  cases finish with
  | none =>
    refine Within.bind (n := 0) ?_ (d.within_pause (by simp) fun hprompt => ?_)
    · exact fun _ => trivial
    · cases hfinish hprompt
  | some finish =>
    rw [awaitEnd_some]
    refine Within.bind (n := 0) ?_ ?_
    · intro wake
      cases wake with
      | cancelled => trivial
      | deadline => trivial
      | elapsed => exact Within.read_bind fun _ => trivial
    · unfold lasts
      cases finish.lasts with
      | none => trivial
      | some ms => exact d.within_sleep ms

section

variable {node : Node} {executor : Executor} (hnode : node ∈ d.workflow.nodes)
  (hexecutor : d.executors node.type = some executor)

include hnode hexecutor

theorem within_attempt (run : Run) (log : Logger) :
    (d.attempt executor node run log).Within d.Waits 2 := by
  refine Within.bind (n := 1) ?_ (d.within_pause (by simp) fun _ => Or.inl rfl)
  intro wake
  cases wake with
  | cancelled => trivial
  | deadline => trivial
  | elapsed =>
    exact fun _ => d.within_awaitEnd _ _ fun hprompt => hprompt node hnode executor hexecutor _ _

theorem within_attempts (run : Run) (more : Nat) :
    ∀ (number : Nat) (log : Logger),
      (d.attempts executor node run more number log).Within d.Waits (3 * more + 2) := by
  induction more with
  | zero =>
    intro number log
    unfold attempts
    refine Within.bind (n := 0) ?_ (d.within_attempt hnode hexecutor run log)
    exact fun _ => trivial
  | succ more ih =>
    intro number log
    unfold attempts
    have hnumber : 3 * (more + 1) + 2 = 2 + (1 + (3 * more + 2)) := by omega
    rw [hnumber]
    refine Within.bind ?_ (d.within_attempt hnode hexecutor run log)
    intro r
    obtain ⟨log, verdict⟩ := r
    cases verdict with
    | failed error =>
      refine Within.read_bind fun now => Within.bind ?_ (d.within_sleep _)
      intro wake
      cases wake with
      | cancelled => trivial
      | deadline => trivial
      | elapsed => exact ih _ _
    | completed output => trivial
    | cancelled => trivial
    | timedOut => trivial

end

/-- The stops of a node that is attempted so often at most. -/
theorem within_runNode {node : Node} (hnode : node ∈ d.workflow.nodes) (run : Run) :
    (d.runNode node run).Within d.Waits (3 * d.workflow.settings.maxAttempts + 2) := by
  have hattempts := d.workflow.settings.maxAttempts_pos
  have htries : ∀ run', (d.tries node run').Within d.Waits
      (3 * (d.workflow.settings.maxAttempts - 1) + 2) := by
    intro run'
    unfold tries
    cases hexecutor : d.executors node.type with
    | none => trivial
    | some executor => exact d.within_attempts hnode hexecutor run' _ 1 _
  have hwhole : (d.runNode node run).Within d.Waits
      (1 + (3 * (d.workflow.settings.maxAttempts - 1) + 2 + 1)) := by
    rw [runNode_eq]
    refine Within.read_bind fun now => Within.bind ?_ (within_save _)
    intro run'
    refine Within.bind ?_ (htries run')
    intro _
    refine Within.read_bind fun now' => Within.bind (n := 0) ?_ (within_save _)
    exact fun _ => trivial
  exact hwhole.le (by omega)

theorem within_visit {g : Graph} (hg : ∀ node ∈ g.nodes, node ∈ d.workflow.nodes) (id : String)
    (run : Run) :
    (d.visit g id run).Within d.Waits (3 * d.workflow.settings.maxAttempts + 2) := by
  refine Within.read_bind ?_
  intro cancelled
  cases cancelled with
  | true => trivial
  | false =>
    refine Within.read_bind ?_
    intro late
    cases late with
    | true => trivial
    | false =>
      simp only [Bool.false_eq_true, if_false]
      cases hnode : g.node? id with
      | none => trivial
      | some node =>
        have hmem := hg node (List.mem_of_find?_eq_some hnode)
        refine Within.bind (n := 0) ?_ (d.within_runNode hmem run)
        rintro ⟨run', verdict⟩
        cases verdict with
        | failed error =>
          dsimp only
          split <;> trivial
        | completed output => trivial
        | cancelled => trivial
        | timedOut => trivial

theorem within_conclude (run : Run) (halt : Option Halt) :
    (d.conclude run halt).Within d.Waits 1 := by
  have hasked : ∀ now, (d.isCancelled run >>= fun cancelled =>
      if cancelled then save (run.cancel now) else save (run.finish .completed now)).Within
        d.Waits 1 := by
    refine fun now => Within.read_bind ?_
    intro cancelled
    cases cancelled with
    | true => exact within_save _
    | false => exact within_save _
  refine Within.read_bind ?_
  intro now
  cases halt with
  | none => exact hasked now
  | some reason =>
    cases reason with
    | failed node error => exact within_save _
    | timedOut => exact within_save _
    | cancelled => exact hasked now

end Driver

namespace Engine

variable (e : Engine) (w : Workflow)

/-- The stops of a whole run, from its start nodes to its end. -/
theorem within_drive (run : Run) (token : Nat) :
    (e.drive w run token).Within (fun wait => wait.CutBy token ∧ wait.Limited w.settings ∧
        (e.executors.Prompt w → wait.Comes))
      (w.nodes.length * (3 * w.settings.maxAttempts + 2) + 1) := by
  unfold drive
  split
  · trivial
  · refine Within.read_bind ?_
    intro now
    generalize hd : (⟨e.executors, w, token, w.settings.timeout.map (now + ·)⟩ : Driver) = d
    obtain ⟨rfl, rfl, hexecutors, hdeadline⟩ : d.token = token ∧ d.workflow = w ∧
        d.executors = e.executors ∧ d.deadline = w.settings.timeout.map (now + ·) := by
      rw [← hd]
      exact ⟨rfl, rfl, rfl, rfl⟩
    have hwaits : ∀ wait, d.Waits wait → wait.CutBy d.token ∧
        wait.Limited d.workflow.settings ∧ (e.executors.Prompt d.workflow → wait.Comes) := by
      rintro wait ⟨hcut, heq, hcomes⟩
      refine ⟨hcut, ?_, hexecutors ▸ hcomes⟩
      unfold Wait.Limited
      rw [heq, hdeadline, Option.isSome_map]
      exact id
    have hnodes : ∀ node ∈ (Graph.ofWorkflow d.workflow).nodes, node ∈ d.workflow.nodes :=
      firstNodes_subset [] d.workflow.nodes
    refine Within.mono hwaits (Within.bind (fun _ => d.within_conclude _ _) ?_) (Nat.le_refl _)
    refine (within_walk (d.within_visit hnodes) _ _ _ _).le ?_
    rw [Nat.mul_comm]
    exact Nat.mul_le_mul_right _ (length_firstNodes_le [] d.workflow.nodes)

theorem within_prepare {ok : Wait → Prop} (payload : Json.Value) (options : RunOptions) :
    (e.prepare w payload options).Within ok 2 := by
  unfold prepare
  refine Within.read_bind fun now => Within.read_bind ?_
  intro id
  refine Within.bind (m := 1) (n := 1) ?_ fun _ => trivial
  intro token
  split
  · trivial
  · refine Within.bind (n := 0) ?_ (Driver.within_save _)
    exact fun _ => trivial

/-- What the schedule reckons with is enough for a driver alone. -/
theorem within_drive_stops (run : Run) (token : Nat) :
    (e.drive w run token).Within (Wait.CutBy token) (stops w) :=
  (e.within_drive w run token).mono (fun _ h => h.1) (by unfold stops; omega)

/-- And it is enough for a run from its very beginning. -/
theorem within_execute (payload : Json.Value) (options : RunOptions) :
    (e.execute w payload options).Within (fun wait => wait.Limited w.settings ∧
      (e.executors.Prompt w → wait.Comes)) (stops w) := by
  have hwhole : (e.execute w payload options).Within (fun wait => wait.Limited w.settings ∧
      (e.executors.Prompt w → wait.Comes))
      (2 + (w.nodes.length * (3 * w.settings.maxAttempts + 2) + 1)) := by
    refine Within.bind ?_ (e.within_prepare w payload options)
    intro r
    exact (e.within_drive w r.1 r.2).mono (fun _ h => h.2) (Nat.le_refl _)
  exact hwhole.le (by unfold stops; omega)

end Engine

/-! ## Turns -/

/-- Whether the process has come to a lock. -/
def Process.AtLock : Process σ α → Prop
  | locked _ _ => True
  | _ => False

theorem Outcome.ended_or_goes (outcome : Outcome σ α) :
    (∃ a, outcome = .ended a) ∨ ∀ a, outcome ≠ .ended a := by
  cases outcome with
  | ended a => exact Or.inl ⟨a, rfl⟩
  | waits p => exact Or.inr (by simp)
  | yields p locks => exact Or.inr (by simp)
  | lines p => exact Or.inr (by simp)

/-- Where a turn can end that began with this access to the lock. -/
inductive Outcome.Stands (signals : σ → Signals) (access : Access) (s : σ) :
    Outcome σ α → Prop where
  | ended (a : α) : Stands signals access s (.ended a)
  | waits {wait : Wait} {next : Wake → Process σ α} :
      wait.wake? (signals s) = none → Stands signals access s (.waits (.await wait next))
  | keeps {change : σ → σ} {next : σ → Process σ α} :
      access = .free ∨ access = .own false →
      Stands signals access s (.yields (.locked change next) true)
  | yields {wait : Wait} {next : Wake → Process σ α} :
      Stands signals access s (.yields (.await wait next) false)
  | lines {change : σ → σ} {next : σ → Process σ α} :
      access = .taken ∨ access = .own true →
      Stands signals access s (.lines (.locked change next))

/-- Who has opened the lock finds it as the line leaves it. -/
theorem Outcome.Stands.of_own {signals : σ → Signals} {wanted : Bool} {s : σ}
    {outcome : Outcome σ α} (h : outcome.Stands signals (if wanted then .taken else .free) s) :
    outcome.Stands signals (.own wanted) s := by
  cases h with
  | ended a => exact .ended a
  | waits hw => exact .waits hw
  | yields => exact .yields
  | keeps ha => cases wanted <;> simp_all [Outcome.Stands.keeps]
  | lines ha => cases wanted <;> simp_all [Outcome.Stands.lines]

namespace Process

variable (signals : σ → Signals)

theorem turn_stands : ∀ (p : Process σ α) (left : Nat) (access : Access) (s : σ),
    (p.turn signals left access s).outcome.Stands signals access
      (p.turn signals left access s).state
  | done a, _, _, _ => .ended a
  | act change next, left, access, s => turn_stands (next s) left access (change s)
  | locked change next, left, access, s => by
    unfold turn
    cases access with
    | taken => exact .lines (Or.inl rfl)
    | own wanted => exact .of_own (turn_stands (next s) (left - 1) _ (change s))
    | free =>
      dsimp only
      split
      · exact .keeps (Or.inl rfl)
      · exact turn_stands (next s) (left - 1) .free (change s)
  | spend pieces next, left, access, s => turn_stands next (left - pieces) access s
  | await wait next, left, access, s => by
    unfold turn
    split
    · exact .yields
    · cases hw : wait.wake? (signals s) with
      | none => exact .waits hw
      | some wake => exact turn_stands (next wake) _ access s

/-- Whether the process comes past the lock or the wait that it is at. -/
def Passes (left : Nat) (access : Access) (s : σ) : Process σ α → Prop
  | locked _ _ => (∃ wanted, access = .own wanted) ∨ access = .free ∧ left ≠ 0
  | await wait _ => left ≠ 0 ∧ (wait.wake? (signals s)).isSome = true
  | _ => False

/-- With something left of its share, a process that does not come past a
place waits or stands in line there. -/
theorem turn_of_not_passes {left : Nat} {access : Access} {s : σ} (hleft : left ≠ 0) :
    ∀ {p : Process σ α}, p.AtStop → ¬p.Passes signals left access s →
      (p.turn signals left access s).outcome = .waits p ∨
      (p.turn signals left access s).outcome = .lines p
  | locked _ _, _, hp => by
    unfold turn
    cases access with
    | taken => exact Or.inr rfl
    | own wanted => exact absurd (Or.inl ⟨wanted, rfl⟩) hp
    | free => exact absurd (Or.inr ⟨rfl, hleft⟩) hp
  | await wait _, _, hp => by
    unfold turn
    rw [if_neg (by simpa using hleft)]
    cases hw : wait.wake? (signals s) with
    | none => exact Or.inl rfl
    | some wake => exact absurd ⟨hleft, by simp [hw]⟩ hp

variable {ok : Wait → Prop}

theorem Within.turn : ∀ {p : Process σ α} {n : Nat} (left : Nat) (access : Access) (s : σ),
    p.Within ok n → (p.turn signals left access s).outcome.rest.Within ok n
  | done _, _, _, _, _, _ => trivial
  | act change _, _, left, access, s, hp => (hp s).turn left access (change s)
  | locked change next, 0, _, _, _, hp => hp.elim
  | locked change next, n + 1, left, access, s, hp => by
    have hle : n ≤ n + 1 := Nat.le_succ n
    unfold Process.turn
    cases access with
    | taken => exact hp
    | own wanted => exact ((hp s).turn (left - 1) _ (change s)).le hle
    | free =>
      dsimp only
      split
      · exact hp
      · exact ((hp s).turn (left - 1) .free (change s)).le hle
  | spend pieces next, _, left, access, s, hp => Within.turn (p := next) (left - pieces) access s hp
  | await _ _, 0, _, _, _, hp => hp.elim
  | await wait next, n + 1, left, access, s, hp => by
    unfold Process.turn
    split
    · exact hp
    · cases wait.wake? (signals s) with
      | none => exact hp
      | some wake => exact ((hp.2 wake).turn _ access s).le (Nat.le_succ n)

theorem Within.turn_of_passes {left : Nat} {access : Access} {s : σ} : ∀ {p : Process σ α} {n : Nat},
    p.Within ok (n + 1) → p.Passes signals left access s →
      (p.turn signals left access s).outcome.rest.Within ok n
  | locked change next, n, hp, hpass => by
    unfold Process.turn
    rcases hpass with ⟨wanted, rfl⟩ | ⟨rfl, hleft⟩
    · exact (hp s).turn signals (left - 1) _ (change s)
    · dsimp only
      rw [if_neg (by simpa using hleft)]
      exact (hp s).turn signals (left - 1) .free (change s)
  | await wait next, n, hp, ⟨hleft, hwake⟩ => by
    obtain ⟨wake, hwake⟩ := Option.isSome_iff_exists.mp hwake
    unfold Process.turn
    rw [if_neg (by simpa using hleft), hwake]
    exact (hp.2 wake).turn signals _ access s

/-- Without a stop to come the turn is the last one. -/
theorem Within.turn_of_zero (left : Nat) (access : Access) (s : σ) : ∀ {p : Process σ α},
    p.Within ok 0 → ∃ a, (p.turn signals left access s).outcome = .ended a
  | done a, _ => ⟨a, rfl⟩
  | act change _, hp => (hp s).turn_of_zero left access (change s)
  | spend pieces next, hp => Within.turn_of_zero (left - pieces) access s (p := next) hp
  | locked _ _, hp => hp.elim
  | await _ _, hp => hp.elim

/-- A process that has come to its only stop stays there, or ends. -/
theorem Within.turn_of_one (left : Nat) (access : Access) (s : σ) : ∀ {p : Process σ α},
    p.Within ok 1 → p.AtStop → (∃ a, (p.turn signals left access s).outcome = .ended a) ∨
      (p.turn signals left access s).outcome.rest = p ∧ (p.turn signals left access s).state = s
  | locked change next, hp, _ => by
    unfold Process.turn
    cases access with
    | taken => exact Or.inr ⟨rfl, rfl⟩
    | own wanted => exact Or.inl ((hp s).turn_of_zero signals _ _ _)
    | free =>
      dsimp only
      split
      · exact Or.inr ⟨rfl, rfl⟩
      · exact Or.inl ((hp s).turn_of_zero signals _ _ _)
  | await wait next, hp, _ => by
    unfold Process.turn
    split
    · exact Or.inr ⟨rfl, rfl⟩
    · cases wait.wake? (signals s) with
      | none => exact Or.inr ⟨rfl, rfl⟩
      | some wake => exact Or.inl ((hp.2 wake).turn_of_zero signals _ _ _)

/-! ## Depths -/

/-- How often the process stops at most. -/
noncomputable def depth (p : Process σ α) : Nat :=
  sInf { n | p.Within (fun _ => True) n }

theorem Within.depth_le {p : Process σ α} {n : Nat} (h : p.Within ok n) : p.depth ≤ n :=
  Nat.sInf_le (h.mono (fun _ _ => trivial) (Nat.le_refl n))

theorem Within.within_depth {p : Process σ α} {n : Nat} (h : p.Within ok n) :
    p.Within (fun _ => True) p.depth :=
  Nat.sInf_mem (s := { n | p.Within (fun _ => True) n })
    ⟨n, h.mono (fun _ _ => trivial) (Nat.le_refl n)⟩

/-- Who has come to a lock or to a wait has come to one. -/
theorem Within.pos {n : Nat} : ∀ {p : Process σ α}, p.Within ok n → p.AtStop → 0 < n
  | locked _ _, hp, _ => by cases n with
    | zero => exact hp.elim
    | succ n => exact Nat.succ_pos n
  | await _ _, hp, _ => by cases n with
    | zero => exact hp.elim
    | succ n => exact Nat.succ_pos n

theorem Passes.atStop {left : Nat} {access : Access} {s : σ} :
    ∀ {p : Process σ α}, p.Passes signals left access s → p.AtStop
  | locked _ _, _ => trivial
  | await _ _, _ => trivial

section

variable {p : Process σ α} {n : Nat} (hp : p.Within ok n) (left : Nat) (access : Access) (s : σ)

include hp

/-- A turn does not add to the stops that are left. -/
theorem Within.depth_turn : (p.turn signals left access s).outcome.rest.depth ≤ p.depth :=
  (hp.within_depth.turn signals left access s).depth_le

/-- Coming past a lock or a wait leaves one less. -/
theorem Within.depth_turn_of_passes (hpass : p.Passes signals left access s) :
    (p.turn signals left access s).outcome.rest.depth < p.depth := by
  have hdepth := hp.within_depth
  obtain ⟨m, hm⟩ := Nat.exists_eq_add_of_lt (hdepth.pos (hpass.atStop signals))
  rw [Nat.zero_add] at hm
  rw [hm] at hdepth ⊢
  exact Nat.lt_succ_of_le (hdepth.turn_of_passes signals hpass).depth_le

end

end Process

end Automation
