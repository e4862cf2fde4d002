/-
Automation.Proofs.Engine.ProcessTheorems — processes as a lawful monad,
and what holds of every result of a process.

A process is a tree: it branches with the state that it finds and with
the way in which a wait ends. `Always post` says that `post` holds at
every leaf, whatever the states and the ends of the waits are; nothing is
assumed of the company in which the process runs. `bind_congr_always` is
what such a fact is for: two continuations that agree on the results a
process can have make the same process.
-/
import Automation.Engine.Process

namespace Automation.Process

variable {σ α β γ : Type}

/-! ## Sequencing -/

@[simp] theorem done_bind (a : α) (k : α → Process σ β) : (done a >>= k) = k a := rfl

theorem bind_done (p : Process σ α) : (p >>= done) = p := by
  induction p with
  | done a => rfl
  | act change next ih => exact congrArg (act change) (funext ih)
  | locked change next ih => exact congrArg (locked change) (funext ih)
  | spend pieces next ih => exact congrArg (spend pieces) ih
  | await wait next ih => exact congrArg (await wait) (funext ih)

theorem bind_bind (p : Process σ α) (k : α → Process σ β) (l : β → Process σ γ) :
    (p >>= k >>= l) = p >>= fun a => k a >>= l := by
  induction p with
  | done a => rfl
  | act change next ih => exact congrArg (act change) (funext ih)
  | locked change next ih => exact congrArg (locked change) (funext ih)
  | spend pieces next ih => exact congrArg (spend pieces) ih
  | await wait next ih => exact congrArg (await wait) (funext ih)

instance : LawfulMonad (Process σ) :=
  LawfulMonad.mk' (Process σ) bind_done (fun _ _ => rfl) bind_bind

/-! ## What holds of every result -/

/-- Every result of the process has `post`, whatever states it finds and
however its waits end. -/
def Always (post : α → Prop) : Process σ α → Prop
  | done a => post a
  | act _ next => ∀ s, (next s).Always post
  | locked _ next => ∀ s, (next s).Always post
  | spend _ next => next.Always post
  | await _ next => ∀ wake, (next wake).Always post

theorem Always.mono {post post' : α → Prop} (h : ∀ a, post a → post' a) :
    ∀ {p : Process σ α}, p.Always post → p.Always post'
  | done a, hp => h a hp
  | act _ _, hp => fun s => (hp s).mono h
  | locked _ _, hp => fun s => (hp s).mono h
  | spend _ next, hp => Always.mono (p := next) h hp
  | await _ _, hp => fun wake => (hp wake).mono h

/-- What holds after the second of two processes, given what holds after
the first. -/
theorem Always.bind {post : α → Prop} {post' : β → Prop} {k : α → Process σ β}
    (hk : ∀ a, post a → (k a).Always post') :
    ∀ {p : Process σ α}, p.Always post → (p >>= k).Always post'
  | done a, hp => hk a hp
  | act _ _, hp => fun s => (hp s).bind hk
  | locked _ _, hp => fun s => (hp s).bind hk
  | spend _ next, hp => Always.bind (p := next) hk hp
  | await _ _, hp => fun wake => (hp wake).bind hk

theorem always_of_forall {post : α → Prop} (h : ∀ a, post a) : ∀ p : Process σ α, p.Always post
  | done a => h a
  | act _ next => fun s => always_of_forall h (next s)
  | locked _ next => fun s => always_of_forall h (next s)
  | spend _ next => always_of_forall h next
  | await _ next => fun wake => always_of_forall h (next wake)

/-- What holds after the second of two processes, whatever the first one
results in. -/
theorem always_bind {post : β → Prop} {k : α → Process σ β} (p : Process σ α)
    (hk : ∀ a, (k a).Always post) : (p >>= k).Always post := by
  have hp : p.Always fun _ => True := always_of_forall (fun _ => trivial) p
  exact hp.bind fun a _ => hk a

/-- Two things that hold of every result. -/
theorem Always.and {post post' : α → Prop} :
    ∀ {p : Process σ α}, p.Always post → p.Always post' → p.Always fun a => post a ∧ post' a
  | done _, hp, hp' => ⟨hp, hp'⟩
  | act _ _, hp, hp' => fun s => (hp s).and (hp' s)
  | locked _ _, hp, hp' => fun s => (hp s).and (hp' s)
  | spend _ next, hp, hp' => Always.and (p := next) hp hp'
  | await _ _, hp, hp' => fun wake => (hp wake).and (hp' wake)

/-- What holds of the results that are mapped. -/
theorem always_map {post : β → Prop} {f : α → β} :
    ∀ {p : Process σ α}, (f <$> p).Always post ↔ p.Always fun a => post (f a)
  | done _ => Iff.rfl
  | act _ _ => forall_congr' fun _ => always_map
  | locked _ _ => forall_congr' fun _ => always_map
  | spend _ next => always_map (p := next)
  | await _ _ => forall_congr' fun _ => always_map

/-- Two continuations that agree on every result of a process. -/
theorem bind_congr_always {post : α → Prop} {k l : α → Process σ β}
    (h : ∀ a, post a → k a = l a) : ∀ {p : Process σ α}, p.Always post → (p >>= k) = p >>= l
  | done a, hp => h a hp
  | act change _, hp => congrArg (act change) (funext fun s => bind_congr_always h (hp s))
  | locked change _, hp => congrArg (locked change) (funext fun s => bind_congr_always h (hp s))
  | spend pieces next, hp => congrArg (spend pieces) (bind_congr_always (p := next) h hp)
  | await wait _, hp => congrArg (await wait) (funext fun wake => bind_congr_always h (hp wake))

end Automation.Process
