/-
Automation.Proofs.Engine.StraightTheorems — processes that never give way.

A process that neither waits nor needs the lock can be carried out from
beginning to end (`Process.carry`). A schedule does so at once when it serves
such a process: nothing that goes on in the background comes between its
steps (`Schedule.serve_of_carry`).
-/
import Automation.Proofs.Engine.OrderTheorems

namespace Automation

namespace Process

variable {σ α β : Type}

/-- What a process comes to that neither waits nor needs the lock: its result,
and the state behind it. -/
def carry : Process σ α → σ → Option (α × σ)
  | done a, s => some (a, s)
  | act change next, s => (next s).carry (change s)
  | _, _ => none

@[simp] theorem carry_read_bind (f : σ → α) (k : α → Process σ β) (s : σ) :
    (read f >>= k).carry s = (k (f s)).carry s := rfl

@[simp] theorem carry_step_bind (f : σ → α × σ) (k : α → Process σ β) (s : σ) :
    (step f >>= k).carry s = (k (f s).1).carry (f s).2 := rfl

/-- One process after the other. -/
theorem carry_bind {p : Process σ α} {k : α → Process σ β} {s s' : σ} {a : α}
    (h : p.carry s = some (a, s')) : (p >>= k).carry s = (k a).carry s' := by
  induction p generalizing s with
  | done b =>
    cases h
    rfl
  | act change next ih => exact ih s h
  | _ => cases h

end Process

namespace Schedule

open Process

variable {α : Type}

/-- A result is answered at once. -/
theorem serve_done (s : Schedule) (stops : Nat) (a : α) :
    (s.serve stops (done a)).1 = some a ∧ (s.serve stops (done a)).2.world = s.world := by
  obtain ⟨fuel, hfuel⟩ : ∃ fuel, 3 * (stops + 1) + s.bound = fuel + 1 :=
    ⟨3 * stops + 2 + s.bound, by omega⟩
  have hserve : s.serve stops (done a) = (some a, (s.turn (done a)).2) := by
    unfold serve
    rw [hfuel]
    rfl
  rw [hserve]
  exact ⟨rfl, s.turn_world (done a)⟩

/-- **What never gives way is done at once.** -/
theorem serve_of_carry {p : Process World α} (stops : Nat) {a : α} {w : World} :
    ∀ {s : Schedule}, p.carry s.world = some (a, w) →
      (s.serve stops p).1 = some a ∧ (s.serve stops p).2.world = w := by
  induction p with
  | done b =>
    intro s h
    cases h
    exact s.serve_done stops _
  | act change next ih =>
    intro s h
    rw [serve_act]
    exact ih s.world h
  | _ =>
    intro s h
    cases h

end Schedule

end Automation
