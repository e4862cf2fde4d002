/-
Automation.Proofs.Run.HistoryTheorems — what any sequence of operations
leaves of the token of a run, and of the end that is stored for it.

The token that is handed out with a run stays with the entry of the run
until the entry is dropped, and it is never given to another entry. So it
is fired exactly by a cancellation of the run that says true before that
(`fired_iff_heard`). A run that is forgotten and handed in again has a new
token, which its driver does not know, and a cancellation that says true
is then not heard by the driver (`cancel_heard_iff`).

A cancelled run stays cancelled, with its dates. Any other end stands only
as long as nobody hands in a record that says something else, and the same
is true of the error of a cancelled run that has none (`end_stands_iff`).

Reading the store is no operation here: it leaves the store as it is.
-/
import Automation.Proofs.Run.RaceTheorems

namespace Automation

open Race (Operation)

/-! ## Sequences of operations -/

/-- Whether an operation drops the entry of an id: the run is forgotten, or
registered once more. -/
def Race.Operation.drops (id : String) : Operation → Bool
  | .register run => run.id == id
  | .remove id' => id' == id
  | .save _ | .cancel _ _ => false

namespace Store

/-- One operation after the other. -/
def perform (s : Store) (operations : List Operation) : Store :=
  operations.foldl Operation.apply s

@[simp] theorem perform_nil (s : Store) : s.perform [] = s := rfl

@[simp] theorem perform_cons (s : Store) (operation : Operation) (rest : List Operation) :
    s.perform (operation :: rest) = perform (operation.apply s) rest := rfl

theorem perform_append (s : Store) (before after : List Operation) :
    s.perform (before ++ after) = (s.perform before).perform after :=
  List.foldl_append

/-! ## Tokens -/

section Tokens

variable {s : Store} {operation : Operation} {id : String} {token : Nat}

/-- The token of an entry is the one it had, or the next one. -/
theorem entry?_apply {e' : StoredRun} (h : entry? (operation.apply s) id = some e') :
    (e'.token = s.tokens ∧ (operation.apply s).tokens = s.tokens + 1) ∨
      ∃ e, s.entry? id = some e ∧ e.token = e'.token := by
  by_cases hid : operation.id = id
  · subst hid
    cases operation with
    | register run =>
      obtain rfl := Option.some.inj ((entry?_register s run).symm.trans h)
      exact Or.inl ⟨rfl, rfl⟩
    | save run =>
      cases he : s.entry? run.id with
      | none =>
        simp only [Operation.apply, save_of_none he] at h ⊢
        obtain rfl := Option.some.inj ((entry?_register s run).symm.trans h)
        exact Or.inl ⟨rfl, rfl⟩
      | some e =>
        obtain rfl := Option.some.inj ((entry?_save he).symm.trans h)
        exact Or.inr ⟨e, he, rfl⟩
    | cancel id now =>
      cases he : s.entry? id with
      | none =>
        rw [Operation.apply, cancel_of_none he] at h
        exact Or.inr ⟨e', h, rfl⟩
      | some e =>
        cases hend : e.run.status.isTerminal with
        | true =>
          rw [Operation.apply, cancel_of_terminal he hend] at h
          exact Or.inr ⟨e', h, rfl⟩
        | false =>
          obtain rfl := Option.some.inj ((entry?_cancel he hend now).symm.trans h)
          exact Or.inr ⟨e, he, rfl⟩
    | remove id => cases (entry?_remove s id).symm.trans h
  · rw [Race.State.entry?_elsewhere hid] at h
    exact Or.inr ⟨e', h, rfl⟩

/-- No token is taken back. -/
theorem tokens_le_apply (s : Store) (operation : Operation) :
    s.tokens ≤ (operation.apply s).tokens := by
  cases operation with
  | register run => exact Nat.le_succ _
  | save run =>
    cases he : s.entry? run.id with
    | none => simp only [Operation.apply, save_of_none he]; exact Nat.le_succ _
    | some e => simp only [Operation.apply, save_of_entry he]; exact Nat.le_refl _
  | cancel id now => simp [Operation.apply]
  | remove id => simp [Operation.apply]

/-- A token is fired by a cancellation that says true, if the entry of the run
has it. -/
theorem mem_fired_apply :
    token ∈ (operation.apply s).fired ↔ token ∈ s.fired ∨
      ∃ id now e, operation = .cancel id now ∧ s.entry? id = some e ∧ e.token = token ∧
        (s.cancel id now).1 = true := by
  cases operation with
  | register run => simp [Operation.apply]
  | save run => simp [Operation.apply]
  | cancel id now =>
    cases he : s.entry? id with
    | none => simp [Operation.apply, cancel_of_none he, he]
    | some e =>
      cases hend : e.run.status.isTerminal with
      | true => simp [Operation.apply, cancel_of_terminal he hend]
      | false =>
        simp only [Operation.apply, cancel_of_live he hend, List.mem_cons]
        constructor
        · rintro (rfl | h)
          · exact Or.inr ⟨id, now, e, rfl, he, rfl, by rw [cancel_of_live he hend]⟩
          · exact Or.inl h
        · rintro (h | ⟨_, _, e', hop, he', rfl, _⟩)
          · exact Or.inr h
          · cases hop
            exact Or.inl (by rw [Option.some.inj (he.symm.trans he')])
  | remove id => simp [Operation.apply]

/-- The tokens that are in use have been handed out. -/
structure Issued (s : Store) : Prop where
  entry : ∀ {id e}, s.entry? id = some e → e.token < s.tokens
  fired : ∀ token ∈ s.fired, token < s.tokens

theorem Issued.empty : Issued {} where
  entry h := by cases h
  fired token h := by cases h

theorem Issued.apply (hs : s.Issued) (operation : Operation) : Issued (operation.apply s) where
  entry {id e'} h := by
    rcases entry?_apply h with ⟨hnew, htokens⟩ | ⟨e, he, htoken⟩
    · rw [hnew, htokens]
      exact Nat.lt_succ_self _
    · rw [← htoken]
      exact Nat.lt_of_lt_of_le (hs.entry he) (tokens_le_apply s operation)
  fired token h := by
    refine Nat.lt_of_lt_of_le ?_ (tokens_le_apply s operation)
    rcases mem_fired_apply.mp h with h | ⟨_, _, e, _, he, rfl, _⟩
    · exact hs.fired token h
    · exact hs.entry he

theorem Issued.perform (hs : s.Issued) (operations : List Operation) :
    Issued (s.perform operations) := by
  induction operations generalizing s with
  | nil => exact hs
  | cons operation rest ih => exact ih (hs.apply operation)

/-! ## Without an entry -/

/-- A token that was handed out and is in no entry any more. -/
structure Lost (s : Store) (token : Nat) : Prop where
  issued : token < s.tokens
  entry : ∀ {id e}, s.entry? id = some e → e.token ≠ token

theorem Lost.apply (h : s.Lost token) (operation : Operation) :
    Lost (operation.apply s) token where
  issued := Nat.lt_of_lt_of_le h.issued (tokens_le_apply s operation)
  entry {id e'} he' := by
    rcases entry?_apply he' with ⟨hnew, _⟩ | ⟨e, he, htoken⟩
    · exact hnew ▸ (Nat.ne_of_lt h.issued).symm
    · exact htoken ▸ h.entry he

/-- Nobody fires a token that is in no entry. -/
theorem Lost.fired_perform (h : s.Lost token) (operations : List Operation) :
    token ∈ (s.perform operations).fired ↔ token ∈ s.fired := by
  induction operations generalizing s with
  | nil => rfl
  | cons operation rest ih =>
    rw [perform_cons, ih (h.apply operation), mem_fired_apply, or_iff_left]
    rintro ⟨_, _, e, _, he, htoken, _⟩
    exact h.entry he htoken

/-! ## With the entry of its run -/

/-- A token that is in the entry of its run, and in no other. -/
structure Kept (s : Store) (id : String) (token : Nat) : Prop where
  issued : token < s.tokens
  entry : ∃ e, s.entry? id = some e ∧ e.token = token
  alone : ∀ {id' e}, s.entry? id' = some e → e.token = token → id' = id

/-- The token that is handed out with a run is in its entry. -/
theorem Kept.register (hs : s.Issued) (run : Run) :
    Kept (s.register run).2 run.id (s.register run).1 where
  issued := Nat.lt_succ_self _
  entry := ⟨_, entry?_register s run, rfl⟩
  alone {id' e} he htoken := by
    by_cases hne : run.id = id'
    · exact hne.symm
    · rw [entry?_register_ne hne] at he
      exact absurd htoken (Nat.ne_of_lt (hs.entry he))

/-- The entry stands, with its token, unless it is dropped. -/
theorem Kept.apply (h : s.Kept id token) (hkeep : operation.drops id = false) :
    Kept (operation.apply s) id token where
  issued := Nat.lt_of_lt_of_le h.issued (tokens_le_apply s operation)
  entry := by
    obtain ⟨e, he, htoken⟩ := h.entry
    by_cases hid : operation.id = id
    · subst hid
      cases operation with
      | register run => simp [Operation.drops, Operation.id] at hkeep
      | save run => exact ⟨_, entry?_save he, htoken⟩
      | cancel id now =>
        replace he : s.entry? id = some e := he
        cases hend : e.run.status.isTerminal with
        | true => exact ⟨e, by rwa [Operation.apply, cancel_of_terminal he hend], htoken⟩
        | false => exact ⟨_, entry?_cancel he hend now, htoken⟩
      | remove id => simp [Operation.drops, Operation.id] at hkeep
    · exact ⟨e, by rwa [Race.State.entry?_elsewhere hid], htoken⟩
  alone {id' e'} he' htoken := by
    rcases entry?_apply he' with ⟨hnew, _⟩ | ⟨e, he, hsame⟩
    · exact absurd (hnew.symm.trans htoken) (Nat.ne_of_lt h.issued).symm
    · exact h.alone he (hsame.trans htoken)

/-- Once its entry is dropped, the token is in no other. -/
theorem Kept.drop (h : s.Kept id token) (hdrop : operation.drops id = true) :
    Lost (operation.apply s) token where
  issued := Nat.lt_of_lt_of_le h.issued (tokens_le_apply s operation)
  entry {id' e'} he' htoken := by
    rcases entry?_apply he' with ⟨hnew, _⟩ | ⟨e, he, hsame⟩
    · exact absurd (hnew.symm.trans htoken) (Nat.ne_of_lt h.issued).symm
    · obtain rfl := h.alone he (hsame.trans htoken)
      cases operation with
      | register run =>
        obtain rfl : run.id = id' := by simpa [Operation.drops] using hdrop
        obtain rfl := Option.some.inj ((entry?_register s run).symm.trans he')
        exact absurd htoken (Nat.ne_of_lt h.issued).symm
      | save run => cases hdrop
      | cancel id now => cases hdrop
      | remove id =>
        obtain rfl : id = id' := by simpa [Operation.drops] using hdrop
        cases (entry?_remove s id).symm.trans he'

/-- One operation fires the token if it cancels the run and says true. -/
theorem Kept.mem_fired_apply (h : s.Kept id token) :
    token ∈ (operation.apply s).fired ↔
      token ∈ s.fired ∨ ∃ now, operation = .cancel id now ∧ (s.cancel id now).1 = true := by
  rw [Store.mem_fired_apply]
  refine or_congr_right ⟨?_, ?_⟩
  · rintro ⟨id', now, e, rfl, he, htoken, hsaid⟩
    obtain rfl := h.alone he htoken
    exact ⟨now, rfl, hsaid⟩
  · rintro ⟨now, rfl, hsaid⟩
    obtain ⟨e, he, htoken⟩ := h.entry
    exact ⟨id, now, e, rfl, he, htoken, hsaid⟩

/-! ## Cancellations that are heard -/

/-- Among the operations is a cancellation of the run that says true, and
nobody drops the entry of the run before it. -/
def Heard (s : Store) (id : String) (operations : List Operation) : Prop :=
  ∃ before now after, operations = before ++ .cancel id now :: after ∧
    (∀ operation ∈ before, operation.drops id = false) ∧
    ((s.perform before).cancel id now).1 = true

theorem not_heard_nil : ¬ s.Heard id [] := by
  rintro ⟨before, now, after, h, _⟩
  simp at h

theorem heard_cons {rest : List Operation} :
    s.Heard id (operation :: rest) ↔
      (∃ now, operation = .cancel id now ∧ (s.cancel id now).1 = true) ∨
        operation.drops id = false ∧ Heard (operation.apply s) id rest := by
  constructor
  · rintro ⟨before, now, after, heq, hkeep, hsaid⟩
    cases before with
    | nil =>
      obtain ⟨rfl, rfl⟩ := List.cons.inj heq
      exact Or.inl ⟨now, rfl, hsaid⟩
    | cons first before =>
      obtain ⟨rfl, rfl⟩ := List.cons.inj heq
      rw [List.forall_mem_cons] at hkeep
      exact Or.inr ⟨hkeep.1, before, now, after, rfl, hkeep.2, hsaid⟩
  · rintro (⟨now, rfl, hsaid⟩ | ⟨hkeep, before, now, after, rfl, hkeeps, hsaid⟩)
    · exact ⟨[], now, rest, rfl, by simp, hsaid⟩
    · exact ⟨operation :: before, now, after, rfl, List.forall_mem_cons.mpr ⟨hkeep, hkeeps⟩, hsaid⟩

/-- One more cancellation is heard if it says true and the entry has stood
until then. -/
theorem heard_snoc {operations : List Operation} {now : Nat} :
    s.Heard id (operations ++ [.cancel id now]) ↔ s.Heard id operations ∨
      (∀ operation ∈ operations, operation.drops id = false) ∧
        ((s.perform operations).cancel id now).1 = true := by
  induction operations generalizing s with
  | nil => simp [heard_cons, not_heard_nil, Operation.drops]
  | cons operation rest ih =>
    rw [List.cons_append, heard_cons, ih, heard_cons, perform_cons, List.forall_mem_cons,
      and_or_left, or_assoc, and_assoc]

/-- **When the token of a run is fired**: when a cancellation of the run says
true before the entry of the run is dropped. -/
theorem Kept.fired_iff_heard (h : s.Kept id token) (operations : List Operation) :
    token ∈ (s.perform operations).fired ↔ token ∈ s.fired ∨ s.Heard id operations := by
  induction operations generalizing s with
  | nil => simp [not_heard_nil]
  | cons operation rest ih =>
    rw [perform_cons, heard_cons, ← or_assoc, ← h.mem_fired_apply]
    cases hdrop : operation.drops id with
    | true => simp [(h.drop hdrop).fired_perform rest]
    | false => simp [ih (h.apply hdrop)]

end Tokens

/-- **Which cancellations are heard.** A run is registered, and then anything
is done with the store. The token that was handed out with the run is fired
exactly if a cancellation of the run has said true before its entry was
dropped. So when a cancellation says true after all that, the token is fired
exactly if the entry has stood all the time, or if there was an earlier
cancellation that said true before the entry was dropped. -/
theorem cancel_heard_iff (before after : List Operation) (run : Run) (now : Nat) :
    let handed := (perform {} before).register run
    let s := handed.2.perform after
    (s.isFired handed.1 = true ↔ handed.2.Heard run.id after) ∧
      ((s.cancel run.id now).1 = true →
        ((s.cancel run.id now).2.isFired handed.1 = true ↔
          (∀ operation ∈ after, operation.drops run.id = false) ∨
            handed.2.Heard run.id after)) := by
  intro handed s
  have hissued : Issued (perform {} before) := Issued.empty.perform before
  have hkept : handed.2.Kept run.id handed.1 := .register hissued run
  have hunfired : handed.1 ∉ handed.2.fired :=
    fun h => absurd (hissued.fired _ h) (Nat.lt_irrefl _)
  have hfired : ∀ operations, (handed.2.perform operations).isFired handed.1 = true ↔
      handed.2.Heard run.id operations := by
    intro operations
    rw [isFired, List.contains_iff_mem, hkept.fired_iff_heard, or_iff_right hunfired]
  refine ⟨hfired after, fun hsaid => ?_⟩
  have hlast := hfired (after ++ [.cancel run.id now])
  rw [perform_append, heard_snoc] at hlast
  rw [show (s.cancel run.id now).2 = s.perform [.cancel run.id now] from rfl, hlast,
    and_iff_left hsaid, or_comm]

/-- A run that is cancelled as it was registered, and forgotten and handed in
once more before it is cancelled again: the second cancellation says true, and
the first one was heard. -/
theorem heard_before_removal :
    let run := Run.start default "exec-1" .null default .manual 0
    let handed := (perform {} []).register run
    let s := handed.2.perform [.cancel "exec-1" 5, .remove "exec-1", .save run]
    (s.cancel "exec-1" 7).1 = true ∧ (s.cancel "exec-1" 7).2.isFired handed.1 = true := by
  intro run handed s
  have hiff := (cancel_heard_iff [] [.cancel "exec-1" 5, .remove "exec-1", .save run] run 7).2
  refine ⟨by decide, (hiff (by decide)).mpr (Or.inr ?_)⟩
  exact ⟨[], 5, _, rfl, by simp, by decide⟩

/-- A cancellation that says true need not be heard: a run that is forgotten
while it is under way, handed in by its driver and cancelled then. -/
theorem not_always_heard :
    ¬ ∀ (run : Run) (after : List Operation) (now : Nat),
      let handed := ({} : Store).register run
      let s := handed.2.perform after
      (s.cancel run.id now).1 = true → (s.cancel run.id now).2.isFired handed.1 = true := by
  intro h
  let run := Run.start default "exec-1" .null default .manual 0
  exact absurd (h run [.remove "exec-1", .save run] 7 (by decide)) (by decide)

end Store

/-! ## Ends -/

/-- Two records say the same of the end of a run, and of why it ended. -/
structure Run.ClosesAs (r r' : Run) : Prop extends r.EndsAs r' where
  error : r.error = r'.error

theorem Run.ClosesAs.rfl {r : Run} : r.ClosesAs r :=
  ⟨.rfl, Eq.refl _⟩

theorem Run.ClosesAs.symm {r r' : Run} (h : r.ClosesAs r') : r'.ClosesAs r :=
  ⟨⟨h.status.symm, h.completedAt.symm, h.duration.symm⟩, h.error.symm⟩

theorem Run.ClosesAs.trans {r r' r'' : Run} (h : r.ClosesAs r') (h' : r'.ClosesAs r'') :
    r.ClosesAs r'' :=
  ⟨h.toEndsAs.trans h'.toEndsAs, h.error.trans h'.error⟩

/-- A record that can be handed in and leaves the stored end as it is. What it
says of the end does not matter if the run is stored as cancelled, but if no
error is stored then, it must have none. -/
def Run.Upholds (run stored : Run) : Prop :=
  (stored.status = .cancelled ∧ (stored.error.isSome = true ∨ run.error = none)) ∨
    run.ClosesAs stored

theorem Run.Upholds.trans {run r r' : Run} (h : run.Upholds r) (hr : r.ClosesAs r') :
    run.Upholds r' := by
  rcases h with ⟨hcancelled, herror⟩ | h
  · rw [hr.status] at hcancelled
    rw [hr.error] at herror
    exact Or.inl ⟨hcancelled, herror⟩
  · exact Or.inr (h.trans hr)

namespace Store

theorem merge_error_of_cancelled {stored run : Run} (h : stored.status = .cancelled) :
    (merge stored run).error = (stored.error <|> run.error) := by
  simp [merge, h]

/-- The stored end is left as it is exactly by the records that uphold it. -/
theorem merge_closesAs_iff {stored run : Run} :
    (merge stored run).ClosesAs stored ↔ run.Upholds stored := by
  by_cases h : stored.status = .cancelled
  · have herror : (merge stored run).error = stored.error ↔
        stored.error.isSome = true ∨ run.error = none := by
      rw [merge_error_of_cancelled h]
      cases stored.error <;> simp
    constructor
    · exact fun hclose => Or.inl ⟨h, herror.mp hclose.error⟩
    · rintro (⟨_, hup⟩ | hclose)
      · exact ⟨merge_of_cancelled h, herror.mpr hup⟩
      · refine ⟨merge_of_cancelled h, herror.mpr ?_⟩
        rw [hclose.error]
        cases stored.error <;> simp
  · rw [merge_of_ne h, Run.Upholds, or_iff_right fun hup => h hup.1]

section Ends

variable {s : Store} {id : String} {r : Run}

/-- A stored end is changed by handing in alone, as long as the run is not
dropped. -/
theorem get?_apply_of_terminal (h : s.get? id = some r) (hend : r.status.isTerminal = true)
    {operation : Operation} (hkeep : operation.drops id = false)
    (hsave : ∀ run, operation = .save run → run.id ≠ id) :
    get? (operation.apply s) id = some r := by
  by_cases hid : operation.id = id
  · obtain ⟨e, he, rfl⟩ := exists_entry? h
    cases operation with
    | register run => simp [Operation.drops, hid.symm, Operation.id] at hkeep
    | save run => exact absurd hid (hsave run rfl)
    | cancel id' now =>
      obtain rfl : id' = id := hid
      rwa [Operation.apply, cancel_of_terminal he hend]
    | remove id' => simp [Operation.drops, hid.symm, Operation.id] at hkeep
  · rw [get?, Race.State.entry?_elsewhere hid, ← h, get?]

/-- A stored end stands exactly if it is upheld by all that is handed in. -/
theorem stands_iff (operations : List Operation) {s : Store} {r₁ : Run}
    (h : s.get? id = some r₁) (hr : r₁.ClosesAs r) (hend : r.status.isTerminal = true)
    (hkeep : ∀ operation ∈ operations, operation.drops id = false) :
    (∀ before, before <+: operations →
        ∃ r', get? (s.perform before) id = some r' ∧ r'.ClosesAs r) ↔
      ∀ run, Operation.save run ∈ operations → run.id = id → run.Upholds r := by
  induction operations generalizing s r₁ with
  | nil => simpa using ⟨r₁, h, hr⟩
  | cons operation rest ih =>
    rw [List.forall_mem_cons] at hkeep
    have hstep : (∀ before, before <+: operation :: rest →
          ∃ r', get? (s.perform before) id = some r' ∧ r'.ClosesAs r) ↔
        ∀ before, before <+: rest →
          ∃ r', get? (perform (operation.apply s) before) id = some r' ∧ r'.ClosesAs r := by
      constructor
      · exact fun hall before hbefore => hall _ (List.cons_prefix_cons.mpr ⟨rfl, hbefore⟩)
      · intro hall before hbefore
        rcases List.prefix_cons_iff.mp hbefore with rfl | ⟨before, rfl, hrest⟩
        · exact ⟨r₁, h, hr⟩
        · exact hall before hrest
    rw [hstep]
    by_cases hsave : ∃ run, operation = .save run ∧ run.id = id
    · obtain ⟨run, rfl, hid⟩ := hsave
      subst hid
      have hmerged : get? (Operation.apply s (.save run)) run.id = some (merge r₁ run) :=
        get?_save_of_known h
      by_cases hup : run.Upholds r₁
      · rw [ih hmerged ((merge_closesAs_iff.mpr hup).trans hr) hkeep.2]
        simp only [List.mem_cons, Operation.save.injEq, forall_eq_or_imp]
        exact (and_iff_right fun _ => hup.trans hr).symm
      · refine iff_of_false (fun hall => ?_) (fun hall => ?_)
        · obtain ⟨r', hr', hclose⟩ := hall [] (List.nil_prefix)
          obtain rfl := Option.some.inj (hmerged.symm.trans hr')
          exact hup (merge_closesAs_iff.mp (hclose.trans hr.symm))
        · exact hup ((hall run (List.mem_cons_self) rfl).trans hr.symm)
    · have hstays := get?_apply_of_terminal h (hr.status ▸ hend) hkeep.1
        fun run hop hid => hsave ⟨run, hop, hid⟩
      rw [ih hstays hr hkeep.2]
      constructor
      · intro hall run hmem hid
        rcases List.mem_cons.mp hmem with hop | hrest
        · exact absurd ⟨run, hop.symm, hid⟩ hsave
        · exact hall run hrest hid
      · exact fun hall run hmem => hall run (List.mem_cons_of_mem _ hmem)

/-- A cancelled run stays so, with its dates and with its error, if it has
one. -/
theorem cancelled_stands (operations : List Operation) {s : Store} {r : Run}
    (h : s.get? id = some r) (hcancelled : r.status = .cancelled)
    (hkeep : ∀ operation ∈ operations, operation.drops id = false) :
    ∃ r', get? (s.perform operations) id = some r' ∧ r'.EndsAs r ∧
      (r.error.isSome = true → r'.error = r.error) := by
  induction operations generalizing s r with
  | nil => exact ⟨r, h, .rfl, fun _ => rfl⟩
  | cons operation rest ih =>
    rw [List.forall_mem_cons] at hkeep
    by_cases hsave : ∃ run, operation = .save run ∧ run.id = id
    · obtain ⟨run, rfl, rfl⟩ := hsave
      have hends : (merge r run).EndsAs r := merge_of_cancelled hcancelled
      have herror : r.error.isSome = true → (merge r run).error = r.error := by
        rw [merge_error_of_cancelled hcancelled]
        cases r.error <;> simp
      obtain ⟨r', hr', hends', herror'⟩ :=
        ih (get?_save_of_known h) (hends.status.trans hcancelled) hkeep.2
      refine ⟨r', hr', hends'.trans hends, fun hsome => ?_⟩
      rw [herror' (by rw [herror hsome, hsome]), herror hsome]
    · have hend : r.status.isTerminal = true := by rw [hcancelled]; rfl
      have hstays := get?_apply_of_terminal h hend hkeep.1
        fun run hop hid => hsave ⟨run, hop, hid⟩
      exact ih hstays hcancelled hkeep.2

end Ends

/-- **Which ends stand.** A run is stored as ended, and then anything is done
with the store, except that the run is not dropped. Its status, its dates and
its error stay as they are all the time exactly if all records of it that are
handed in uphold its end, and then no cancellation of it says true or changes
anything. If it is stored as cancelled, whatever is handed in, it stays
cancelled, with its dates, and with its error, if it has one. -/
theorem end_stands_iff {s : Store} {id : String} {r : Run} (hr : s.get? id = some r)
    (hend : r.status.isTerminal = true) {operations : List Operation}
    (hkeep : ∀ operation ∈ operations, operation.drops id = false) :
    ((∀ before, before <+: operations →
        ∃ r', get? (s.perform before) id = some r' ∧ r'.ClosesAs r) ↔
      ∀ run, Operation.save run ∈ operations → run.id = id → run.Upholds r) ∧
    ((∀ run, Operation.save run ∈ operations → run.id = id → run.Upholds r) →
      ∀ now, (s.perform operations).cancel id now = (false, s.perform operations)) ∧
    (r.status = .cancelled → ∃ r', get? (s.perform operations) id = some r' ∧ r'.EndsAs r ∧
      (r.error.isSome = true → r'.error = r.error)) := by
  have hstands := stands_iff operations hr .rfl hend hkeep
  refine ⟨hstands, fun hup now => ?_, ?_⟩
  · obtain ⟨r', hr', hclose⟩ := hstands.mpr hup operations (List.prefix_refl _)
    obtain ⟨e, he, rfl⟩ := exists_entry? hr'
    exact cancel_of_terminal he (hclose.status ▸ hend) now
  · exact fun hcancelled => cancelled_stands operations hr hcancelled hkeep

/-- A failed run, with a cancellation of it and the record of its driver handed
in once more. -/
theorem failed_stands :
    let run := Run.start default "exec-1" .null default .manual 0
    let failed := run.fail "boom" 5
    let s := (register {} failed).2
    let operations : List Operation := [.cancel "exec-1" 7, .save (failed.addFailure "a")]
    s.get? "exec-1" = some failed ∧
      ∃ r', get? (s.perform operations) "exec-1" = some r' ∧ r'.ClosesAs failed := by
  intro run failed s operations
  have hr : s.get? "exec-1" = some failed := rfl
  have hkeep : ∀ operation ∈ operations, operation.drops "exec-1" = false := by decide
  refine ⟨hr, (end_stands_iff hr rfl hkeep).1.mpr ?_ operations (List.prefix_refl _)⟩
  intro handed hmem _
  obtain rfl : handed = failed.addFailure "a" := by simpa [operations] using hmem
  exact Or.inr ⟨⟨rfl, rfl, rfl⟩, rfl⟩

/-- An end need not stand: a completed run whose driver hands in that it has
failed. -/
theorem not_always_stands :
    ¬ ∀ (s : Store) (id : String) (r run : Run), s.get? id = some r →
      r.status.isTerminal = true → run.id = id →
      ∃ r', get? (s.perform [.save run]) id = some r' ∧ r'.ClosesAs r := by
  intro h
  let run := Run.start default "exec-1" .null default .manual 0
  obtain ⟨r', hr', hclose⟩ := h (register {} (run.finish .completed 5)).2 "exec-1"
    (run.finish .completed 5) (run.fail "boom" 7) rfl rfl rfl
  obtain rfl : run.fail "boom" 7 = r' := Option.some.inj hr'
  cases hclose.status

end Store

end Automation
