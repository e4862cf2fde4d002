/-
Automation.Proofs.Engine.WorldTheorems — what holds of the shared state
whatever requests and runs do to it.

`World.Fine` relates the store, the runs in the background and the notes
that are taken of cancellations: ids and tokens tell the runs apart, the
runs that have ended in the background are stored as they were fetched,
and each entry is what its note allows. Everything that changes the shared
state keeps it: the driver of a run (`Fine.minds`), the clock, the start
and the end of a run in the background, and the requests; only a request
to cancel takes a note (`Fine.cancelRun`).

Seen from a request, the rest of the system only makes time pass and
brings runs in the background forward (`World.Around`). Seen from the runs
in the background, a request leaves everything alone that is theirs, or
cancels some of them (`World.Tends`). `requests` is the pact of the two.
-/
import Automation.Proofs.Engine.CancellationTheorems
import Automation.Proofs.Services.SeriesTheorems
import Mathlib.Logic.Function.Basic

namespace Automation

open Process

namespace World

/-! ## Runs in the background -/

/-- Whether a run in the background has not come to its end. -/
def isDriven (w : World) (id : String) : Bool :=
  (w.background.lookup id).any (·.isNone)

section

variable {w w' : World} {id id' : String} {run : Run}

theorem isDriven_iff : w.isDriven id = true ↔ w.background.lookup id = some none := by
  unfold isDriven
  cases w.background.lookup id with
  | none => simp
  | some fate => cases fate <;> simp

theorem isDriven_congr (h : w'.background.lookup id = w.background.lookup id) :
    w'.isDriven id = w.isDriven id := by
  unfold isDriven
  rw [h]

theorem hasEnded_iff : w.hasEnded id = true ↔ ∃ run, w.background.lookup id = some (some run) := by
  unfold hasEnded
  cases w.background.lookup id with
  | none => simp
  | some fate => cases fate <;> simp

theorem lookup_cons_ne {fate : Option Run} {rest : List (String × Option Run)} (h : id' ≠ id) :
    ((id', fate) :: rest).lookup id = rest.lookup id := by
  rw [List.lookup_cons, beq_false_of_ne (Ne.symm h)]

theorem isBehind_eq : w.isBehind id = (w.background.lookup id).isSome := by
  unfold isBehind
  induction w.background with
  | nil => rfl
  | cons entry rest ih =>
    obtain ⟨key, fate⟩ := entry
    by_cases h : key = id
    · simp [h]
    · rw [lookup_cons_ne h, ← ih]
      simp [h]

/-- A run in the background is driven, or has come to its end. -/
theorem isDriven_or_hasEnded (h : w.isBehind id = true) :
    w.isDriven id = true ∨ w.hasEnded id = true := by
  rw [isBehind_eq, Option.isSome_iff_exists] at h
  obtain ⟨fate, hfate⟩ := h
  cases fate with
  | none => exact Or.inl (isDriven_iff.mpr hfate)
  | some run => exact Or.inr (hasEnded_iff.mpr ⟨run, hfate⟩)

theorem lookup_endRun :
    (w.endRun id run).background.lookup id = (w.background.lookup id).map fun _ => some run := by
  unfold endRun
  induction w.background with
  | nil => rfl
  | cons entry rest ih =>
    obtain ⟨key, fate⟩ := entry
    by_cases h : key = id
    · simp [h]
    · rw [lookup_cons_ne h, ← ih, List.map_cons, if_neg (by simpa using h), lookup_cons_ne h]

theorem lookup_endRun_ne (h : id' ≠ id) :
    (w.endRun id run).background.lookup id' = w.background.lookup id' := by
  unfold endRun
  induction w.background with
  | nil => rfl
  | cons entry rest ih =>
    obtain ⟨key, fate⟩ := entry
    rw [List.map_cons]
    by_cases hk : key = id'
    · subst hk
      rw [if_neg (by simpa using h)]
      simp
    · rw [lookup_cons_ne hk, ← ih]
      split
      · exact lookup_cons_ne (Ne.symm h)
      · exact lookup_cons_ne hk

theorem lookup_fetchRun : (w.fetchRun id).2.background.lookup id = none := by
  unfold fetchRun
  induction w.background with
  | nil => rfl
  | cons entry rest ih =>
    obtain ⟨key, fate⟩ := entry
    by_cases h : key = id
    · simpa [h] using ih
    · rw [List.filter_cons_of_pos (by simpa using h), lookup_cons_ne h, ih]

theorem lookup_fetchRun_ne (h : id' ≠ id) :
    (w.fetchRun id).2.background.lookup id' = w.background.lookup id' := by
  unfold fetchRun
  induction w.background with
  | nil => rfl
  | cons entry rest ih =>
    obtain ⟨key, fate⟩ := entry
    by_cases hk : key = id
    · subst hk
      rw [lookup_cons_ne (Ne.symm h), ← ih, List.filter_cons_of_neg (by simp)]
    · rw [List.filter_cons_of_pos (by simpa using hk)]
      by_cases hk' : key = id'
      · simp [hk']
      · rw [lookup_cons_ne hk', lookup_cons_ne hk', ih]

theorem lookup_leaveRun (h : w.background.lookup id = none) :
    (w.leaveRun id).background.lookup id = some none := by
  unfold leaveRun
  rw [List.lookup_append, h]
  simp

theorem lookup_leaveRun_ne (h : id' ≠ id) :
    (w.leaveRun id).background.lookup id' = w.background.lookup id' := by
  unfold leaveRun
  rw [List.lookup_append, lookup_cons_ne (Ne.symm h)]
  simp

end

/-! ## Notes of cancellations -/

/-- What holds of the shared state in the light of the notes of all runs. -/
structure Fine (w : World) (notes : String → Option Cancellation) : Prop where
  named : ∀ id e, w.store.entry? id = some e → ∃ n ≤ w.runs, id = w.series.id n
  tokens : ∀ id e, w.store.entry? id = some e → e.token < w.store.tokens
  fired : ∀ k, w.store.isFired k = true → k < w.store.tokens
  apart : ∀ id id' e e', w.store.entry? id = some e → w.store.entry? id' = some e' →
    e.token = e'.token → id = id'
  behind : ∀ id, w.isBehind id = true → ∃ e, w.store.entry? id = some e
  ended : ∀ id run, w.background.lookup id = some (some run) →
    ∃ k, w.store.entry? id = some ⟨run, k⟩ ∧ run.status.isTerminal = true
  known : ∀ id e, w.store.entry? id = some e → Known id e.token w (notes id)
  noted : ∀ id c, notes id = some c → ∃ e, w.store.entry? id = some e ∧
    (c.driven = true → w.isDriven id = true ∨ c.Leaves e.run.nodes)

section

variable {w w' : World} {notes : String → Option Cancellation} {i id : String} {k : Nat}
  {run : Run}

theorem Minds.isFired (hm : w.Minds i w') (k : Nat) : w'.store.isFired k = w.store.isFired k := by
  unfold Store.isFired
  rw [hm.fired]

/-- There is no entry for the next run. -/
theorem Fine.entry?_nextRun (hf : w.Fine notes) : w.store.entry? w.nextRun = none := by
  rw [Option.eq_none_iff_forall_ne_some]
  intro e he
  obtain ⟨n, hn, hid⟩ := hf.named _ _ he
  have := Series.id_inj.mp hid
  omega

theorem Fine.lookup_nextRun (hf : w.Fine notes) : w.background.lookup w.nextRun = none := by
  rw [← Option.not_isSome_iff_eq_none, ← isBehind_eq]
  intro h
  obtain ⟨e, he⟩ := hf.behind _ h
  cases he.symm.trans hf.entry?_nextRun

theorem Fine.note_of_known (hf : w.Fine notes) (hk : Known i k w none) : notes i = none := by
  obtain ⟨r, hr, -⟩ := hk.entry
  have hfired := (hf.known i _ hr).fired
  rw [hk.fired] at hfired
  exact Option.not_isSome_iff_eq_none.mp (by simp [← hfired])

/-- What is stored of a run with a note. -/
theorem Fine.stored (hf : w.Fine notes) {c : Cancellation} (hc : notes id = some c) :
    ∃ e, w.store.entry? id = some e ∧ e.run.EndsAs c.stamped ∧ c.Allows e.run.nodes := by
  obtain ⟨e, he, -⟩ := hf.noted id c hc
  obtain ⟨r, hr, -, hsome⟩ := (hf.known id e he).entry
  obtain rfl : e.run = r := congrArg StoredRun.run (Option.some.inj (he.symm.trans hr))
  exact ⟨e, he, hsome c hc⟩

/-- A run that has not ended was not cancelled. -/
theorem Fine.note_of_live {e : StoredRun} (hf : w.Fine notes) (he : w.store.entry? id = some e)
    (hlive : e.run.status.isTerminal = false) : notes id = none := by
  cases hn : notes id with
  | none => rfl
  | some c =>
    obtain ⟨e', he', hends, -⟩ := hf.stored hn
    cases he.symm.trans he'
    rw [hends.status] at hlive
    cases hlive

/-! ## What keeps the shared state fine -/

/-- Whatever changes one entry, but not its token. -/
theorem Fine.touch (hf : w.Fine notes) {notes' : String → Option Cancellation} {r r' : Run}
    (hr : w.store.entry? i = some ⟨r, k⟩) (hr' : w'.store.entry? i = some ⟨r', k⟩)
    (hold : ∀ id, id ≠ i → w'.store.entry? id = w.store.entry? id)
    (htokens : w'.store.tokens = w.store.tokens) (hruns : w'.runs = w.runs)
    (hseries : w'.series = w.series) (hbackground : w'.background = w.background)
    (hfired : ∀ k', k' ≠ k → w'.store.isFired k' = w.store.isFired k')
    (hlookup : ∀ run, w.background.lookup i ≠ some (some run))
    (hnotes : ∀ id, id ≠ i → notes' id = notes id) (hknown : Known i k w' (notes' i))
    (hleft : ∀ c, notes' i = some c → c.driven = true → w.isDriven i = true ∨ c.Leaves r'.nodes) :
    w'.Fine notes' := by
  have hdriven : ∀ id, w'.isDriven id = w.isDriven id :=
    fun id => isDriven_congr (by rw [hbackground])
  -- the entries are those before, with the same tokens
  have hback : ∀ id e, w'.store.entry? id = some e →
      ∃ e₀, w.store.entry? id = some e₀ ∧ e₀.token = e.token := by
    intro id e he
    by_cases hid : id = i
    · subst hid
      cases hr'.symm.trans he
      exact ⟨_, hr, rfl⟩
    · exact ⟨e, (hold id hid).symm.trans he, rfl⟩
  constructor
  case named =>
    intro id e he
    obtain ⟨e₀, he₀, -⟩ := hback id e he
    rw [hruns, hseries]
    exact hf.named id e₀ he₀
  case tokens =>
    intro id e he
    obtain ⟨e₀, he₀, htoken⟩ := hback id e he
    rw [htokens, ← htoken]
    exact hf.tokens id e₀ he₀
  case fired =>
    intro k' hk'
    rw [htokens]
    by_cases hk : k' = k
    · subst hk
      exact hf.tokens i _ hr
    · exact hf.fired k' ((hfired k' hk).symm.trans hk')
  case apart =>
    intro id id' e e' he he' hsame
    obtain ⟨e₀, he₀, h⟩ := hback id e he
    obtain ⟨e₀', he₀', h'⟩ := hback id' e' he'
    exact hf.apart id id' e₀ e₀' he₀ he₀' (by rw [h, h', hsame])
  case behind =>
    intro id hid
    rw [isBehind_eq, hbackground, ← isBehind_eq] at hid
    obtain ⟨e, he⟩ := hf.behind id hid
    by_cases hi : id = i
    · subst hi
      exact ⟨_, hr'⟩
    · exact ⟨e, (hold id hi).trans he⟩
  case ended =>
    intro id run hid
    rw [hbackground] at hid
    obtain ⟨k', hk', hend⟩ := hf.ended id run hid
    refine ⟨k', (hold id ?_).trans hk', hend⟩
    rintro rfl
    exact hlookup run hid
  case known =>
    intro id e he
    by_cases hid : id = i
    · subst hid
      cases hr'.symm.trans he
      exact hknown
    · have he₀ := (hold id hid).symm.trans he
      obtain ⟨⟨r₀, hr₀, hnote⟩, hk₀⟩ := hf.known id e he₀
      have hne : e.token ≠ k := fun h => hid (hf.apart id i e ⟨r, k⟩ he₀ hr h)
      rw [hnotes id hid]
      exact ⟨⟨r₀, (hold id hid).trans hr₀, hnote⟩, (hfired _ hne).trans hk₀⟩
  case noted =>
    intro id c hc
    rw [hdriven]
    by_cases hid : id = i
    · subst hid
      exact ⟨_, hr', hleft c hc⟩
    · rw [hnotes id hid] at hc
      obtain ⟨e, he, h⟩ := hf.noted id c hc
      exact ⟨e, (hold id hid).trans he, h⟩

/-- The driver of a run. -/
theorem Fine.minds (hf : w.Fine notes) (hm : w.Minds i w') (hk : Known i k w (notes i))
    (hk' : Known i k w' (notes i))
    (hi : w.isDriven i = true ∨ w.background.lookup i = none ∧ notes i = none) : w'.Fine notes := by
  obtain ⟨r, hr, -⟩ := hk.entry
  obtain ⟨r', hr', -⟩ := hk'.entry
  refine hf.touch hr hr' hm.entries hm.tokens hm.runs hm.series hm.background
    (fun k' _ => hm.isFired k') ?_ (fun _ _ => rfl) hk' ?_
  · intro run h
    rcases hi with hi | ⟨hi, -⟩
    · cases h.symm.trans (isDriven_iff.mp hi)
    · simp [h] at hi
  · intro c hc _
    rcases hi with hi | ⟨-, hi⟩
    · exact Or.inl hi
    · simp [hc] at hi

/-- The clock. -/
theorem Fine.setNow (hf : w.Fine notes) (now : Nat) : Fine { w with now } notes where
  named := hf.named
  tokens := hf.tokens
  fired := hf.fired
  apart := hf.apart
  behind := hf.behind
  ended := hf.ended
  known id e he := ⟨(hf.known id e he).entry, (hf.known id e he).fired⟩
  noted := hf.noted

/-- Whatever changes only what is known of one run in the background. -/
theorem Fine.setFate (hf : w.Fine notes) {fates : List (String × Option Run)}
    (hothers : ∀ id, id ≠ i → fates.lookup id = w.background.lookup id)
    (hbehind : (fates.lookup i).isSome = true → ∃ e, w.store.entry? i = some e)
    (hended : ∀ run, fates.lookup i = some (some run) →
      ∃ k, w.store.entry? i = some ⟨run, k⟩ ∧ run.status.isTerminal = true)
    (hleft : ∀ c e, notes i = some c → w.store.entry? i = some e → c.driven = true →
      w.isDriven i = true ∨ c.Leaves e.run.nodes →
        fates.lookup i = some none ∨ c.Leaves e.run.nodes) :
    Fine { w with background := fates } notes where
  named := hf.named
  tokens := hf.tokens
  fired := hf.fired
  apart := hf.apart
  known id e he := ⟨(hf.known id e he).entry, (hf.known id e he).fired⟩
  behind id hid := by
    rw [isBehind_eq] at hid
    by_cases hi : id = i
    · subst hi
      exact hbehind hid
    · rw [hothers id hi, ← isBehind_eq] at hid
      exact hf.behind id hid
  ended id run hid := by
    by_cases hi : id = i
    · subst hi
      exact hended run hid
    · exact hf.ended id run ((hothers id hi).symm.trans hid)
  noted id c hc := by
    obtain ⟨e, he, h⟩ := hf.noted id c hc
    refine ⟨e, he, ?_⟩
    intro hd
    by_cases hi : id = i
    · subst hi
      exact (hleft c e hc he hd (h hd)).imp_left isDriven_iff.mpr
    · rw [isDriven_congr (w := w) (hothers id hi)]
      exact h hd

/-- The end of a run in the background. -/
theorem Fine.endRun (hf : w.Fine notes) (h : Final i k run w (notes i))
    (hd : w.isDriven i = true) : (w.endRun i run).Fine notes := by
  have hfate : (w.endRun i run).background.lookup i = some (some run) := by
    simp [lookup_endRun, isDriven_iff.mp hd]
  refine hf.setFate (fun _ => lookup_endRun_ne) (fun _ => ⟨_, h.stored⟩) ?_ ?_
  · intro run' hrun
    cases hfate.symm.trans hrun
    exact ⟨k, h.stored, h.terminal⟩
  · intro c e hc he _ _
    cases he.symm.trans h.stored
    exact Or.inr (h.left c hc)

/-- Fetching a run that has ended. -/
theorem Fine.fetchRun (hf : w.Fine notes) (hd : w.isDriven i = false) :
    (w.fetchRun i).2.Fine notes := by
  refine hf.setFate (fun _ => lookup_fetchRun_ne) ?_ ?_ ?_
  · intro h
    cases lookup_fetchRun.symm.trans (Option.eq_some_of_isSome h)
  · intro run h
    cases lookup_fetchRun.symm.trans h
  · intro c e _ _ _ h
    exact Or.inr (h.resolve_left (by simp [hd]))

/-- Putting a known run into the background. -/
theorem Fine.leaveRun (hf : w.Fine notes) {e : StoredRun} (he : w.store.entry? i = some e)
    (hi : w.background.lookup i = none) : (w.leaveRun i).Fine notes := by
  refine hf.setFate (fun _ => lookup_leaveRun_ne) (fun _ => ⟨e, he⟩) ?_ ?_
  · intro run h
    cases (lookup_leaveRun hi).symm.trans h
  · exact fun _ _ _ _ _ _ => Or.inl (lookup_leaveRun hi)

/-- There is no note of the next run. -/
theorem Fine.note_nextRun (hf : w.Fine notes) : notes w.nextRun = none := by
  cases hn : notes w.nextRun with
  | none => rfl
  | some c =>
    obtain ⟨e, he, -⟩ := hf.noted _ c hn
    cases he.symm.trans hf.entry?_nextRun

/-- The token of the next run has not been fired. -/
theorem Fine.isFired_tokens (hf : w.Fine notes) : w.store.isFired w.store.tokens = false := by
  rw [Bool.eq_false_iff]
  exact fun h => Nat.lt_irrefl _ (hf.fired _ h)

theorem addRun_eq (w : World) (run : Run) :
    w.addRun run = (w.store.tokens,
      { w with store := (w.store.register run).2, runs := w.runs + 1 }) := rfl

/-- A run that was entered, before anything else happens. -/
theorem known_addRun (hfree : w.store.isFired w.store.tokens = false)
    (hlive : run.status ≠ .cancelled) :
    Known run.id (w.addRun run).1 (w.addRun run).2 none := by
  rw [addRun_eq]
  refine ⟨⟨run, Store.entry?_register w.store run, fun _ => hlive, ?_⟩, hfree⟩
  rintro c ⟨⟩

/-- Entering a new run. -/
theorem Fine.addRun (hf : w.Fine notes) (hid : run.id = w.nextRun)
    (hlive : run.status ≠ .cancelled) : (w.addRun run).2.Fine notes := by
  have hnew : (w.addRun run).2.store.entry? run.id = some ⟨run, w.store.tokens⟩ :=
    Store.entry?_register w.store run
  have hold : ∀ id, id ≠ run.id → (w.addRun run).2.store.entry? id = w.store.entry? id :=
    fun id h => Store.entry?_register_ne (Ne.symm h)
  have hnone : w.store.entry? run.id = none := by
    rw [hid]
    exact hf.entry?_nextRun
  have hlt : ∀ id e, w.store.entry? id = some e → id ≠ run.id := by
    rintro id e he rfl
    simp [he] at hnone
  constructor
  case named =>
    intro id e he
    by_cases h : id = run.id
    · exact ⟨w.runs + 1, Nat.le_refl _, h.trans hid⟩
    · obtain ⟨n, hn, hname⟩ := hf.named id e ((hold id h).symm.trans he)
      exact ⟨n, Nat.le_succ_of_le hn, hname⟩
  case tokens =>
    intro id e he
    by_cases h : id = run.id
    · subst h
      cases hnew.symm.trans he
      exact Nat.lt_succ_self _
    · exact Nat.lt_succ_of_lt (hf.tokens id e ((hold id h).symm.trans he))
  case fired =>
    exact fun k hk => Nat.lt_succ_of_lt (hf.fired k hk)
  case apart =>
    intro id id' e e' he he' htokens
    by_cases h : id = run.id
    · by_cases h' : id' = run.id
      · rw [h, h']
      · subst h
        cases hnew.symm.trans he
        have := hf.tokens id' e' ((hold id' h').symm.trans he')
        exact absurd htokens (Nat.ne_of_gt this)
    · by_cases h' : id' = run.id
      · subst h'
        cases hnew.symm.trans he'
        have := hf.tokens id e ((hold id h).symm.trans he)
        exact absurd htokens (Nat.ne_of_lt this)
      · exact hf.apart id id' e e' ((hold id h).symm.trans he) ((hold id' h').symm.trans he') htokens
  case behind =>
    intro id h
    obtain ⟨e, he⟩ := hf.behind id h
    exact ⟨e, (hold id (hlt id e he)).trans he⟩
  case ended =>
    intro id run' h
    obtain ⟨k, hk, hend⟩ := hf.ended id run' h
    exact ⟨k, (hold id (hlt id _ hk)).trans hk, hend⟩
  case known =>
    intro id e he
    by_cases h : id = run.id
    · subst h
      cases hnew.symm.trans he
      rw [hid, hf.note_nextRun, ← hid]
      exact known_addRun hf.isFired_tokens hlive
    · have hk := hf.known id e ((hold id h).symm.trans he)
      obtain ⟨r, hr, hnote⟩ := hk.entry
      exact ⟨⟨r, (hold id h).trans hr, hnote⟩, hk.fired⟩
  case noted =>
    intro id c hc
    obtain ⟨e, he, hleft⟩ := hf.noted id c hc
    exact ⟨e, (hold id (hlt id e he)).trans he, hleft⟩

/-! ## Cancelling -/

/-- The note of a run that is cancelled now. -/
def cancellation (w : World) (id : String) (run : Run) (place : Place) : Cancellation where
  driven := w.isDriven id
  place
  run
  now := w.now

/-- Cancelling a run that has not ended takes a note of it. -/
theorem Fine.cancelRun (hf : w.Fine notes) {e : StoredRun} (he : w.store.entry? i = some e)
    (hlive : e.run.status.isTerminal = false) (place : Place) :
    (w.cancelRun i).2.Fine (Function.update notes i (some (w.cancellation i e.run place))) := by
  have hstore : (w.cancelRun i).2.store = (w.store.cancel i w.now).2 := rfl
  have hnew : (w.cancelRun i).2.store.entry? i = some ⟨e.run.finish .cancelled w.now, e.token⟩ :=
    Store.entry?_cancel he hlive w.now
  have hfired : ∀ k, (w.cancelRun i).2.store.isFired k = (k == e.token || w.store.isFired k) := by
    intro k
    rw [hstore, Store.cancel_of_live he hlive]
    rfl
  refine hf.touch he hnew (fun id h => Store.entry?_cancel_ne (Ne.symm h) w.now) ?_ rfl rfl rfl ?_ ?_
    (fun id h => Function.update_of_ne h _ _) ?_ ?_
  · rw [hstore, Store.cancel_of_live he hlive]
  · intro k hk
    rw [hfired, beq_false_of_ne hk, Bool.false_or]
  · intro run h
    obtain ⟨k, hk, hend⟩ := hf.ended i run h
    cases hk.symm.trans he
    simp [hlive] at hend
  · rw [Function.update_self]
    refine ⟨⟨_, hnew, by simp, ?_⟩, ?_⟩
    · rintro c ⟨⟩
      exact ⟨.rfl, .same⟩
    · rw [hfired]
      simp
  · intro c hc
    rw [Function.update_self] at hc
    cases hc
    exact Or.inl

/-- Cancelling a run that is not known or has ended does nothing. -/
theorem cancelRun_of_false (h : (w.cancelRun i).1 = false) : (w.cancelRun i).2 = w := by
  have hstore : (w.store.cancel i w.now).2 = w.store := Store.cancel_of_false h
  show { w with store := (w.store.cancel i w.now).2 } = w
  rw [hstore]

/-! ## Requests and runs -/

/-- What runs in the background and the clock do, as a request sees it. -/
structure Around (w w' : World) : Prop where
  now : w.now ≤ w'.now
  runs : w'.runs = w.runs
  series : w'.series = w.series
  tokens : w'.store.tokens = w.store.tokens
  fired : w'.store.fired = w.store.fired
  behind : ∀ id, w'.isBehind id = w.isBehind id
  fates : ∀ id, w.isDriven id = false → w'.background.lookup id = w.background.lookup id
  entries : ∀ id, w.isDriven id = false → w'.store.entry? id = w.store.entry? id

/-- What a request does, as runs in the background see it: whatever notes
there are, it takes notes of the runs that it cancels, and leaves the others
alone. -/
structure Tends (w w' : World) : Prop where
  now : w'.now = w.now
  fired : ∀ k, w.store.isFired k = true → w'.store.isFired k = true
  driven : ∀ id, w'.isDriven id = w.isDriven id
  behind : ∀ id, w'.isBehind id = true → w.isBehind id = true
  fine : ∀ notes (places : String → Place), w.Fine notes → ∃ notes', w'.Fine notes' ∧
    (∀ id c, notes id = some c → notes' id = some c) ∧
    ∀ id k r, w.isDriven id = true → w.store.entry? id = some ⟨r, k⟩ →
      Meanwhile id k (places id) w (notes id) w' (notes' id)

theorem Around.rfl {w : World} : w.Around w :=
  ⟨Nat.le_refl _, Eq.refl _, Eq.refl _, Eq.refl _, Eq.refl _, fun _ => Eq.refl _,
    fun _ _ => Eq.refl _, fun _ _ => Eq.refl _⟩

theorem Around.trans {w w₁ w₂ : World} (h : w.Around w₁) (h' : w₁.Around w₂) : w.Around w₂ where
  now := Nat.le_trans h.now h'.now
  runs := h'.runs.trans h.runs
  series := h'.series.trans h.series
  tokens := h'.tokens.trans h.tokens
  fired := h'.fired.trans h.fired
  behind id := (h'.behind id).trans (h.behind id)
  fates id hid := (h'.fates id ((isDriven_congr (h.fates id hid)).trans hid)).trans (h.fates id hid)
  entries id hid :=
    (h'.entries id ((isDriven_congr (h.fates id hid)).trans hid)).trans (h.entries id hid)

theorem Around.isFired (h : w.Around w') (k : Nat) : w'.store.isFired k = w.store.isFired k := by
  unfold Store.isFired
  rw [h.fired]

theorem Around.known (h : w.Around w') {g : Option Cancellation} (hid : w.isDriven id = false)
    (hk : Known id k w g) : Known id k w' g := by
  obtain ⟨r, hr, hnote⟩ := hk.entry
  exact ⟨⟨r, (h.entries id hid).trans hr, hnote⟩, (h.isFired k).trans hk.fired⟩

theorem Around.setNow (w : World) (now : Nat) : w.Around { w with now := max w.now now } :=
  ⟨Nat.le_max_left _ _, Eq.refl _, Eq.refl _, Eq.refl _, Eq.refl _, fun _ => Eq.refl _,
    fun _ _ => Eq.refl _, fun _ _ => Eq.refl _⟩

theorem Around.of_minds (hm : w.Minds i w') (hi : w.isDriven i = true) : w.Around w' where
  now := Nat.le_of_eq hm.now.symm
  runs := hm.runs
  series := hm.series
  tokens := hm.tokens
  fired := hm.fired
  behind id := by rw [isBehind_eq, isBehind_eq, hm.background]
  fates id _ := by rw [hm.background]
  entries id hid := by
    refine hm.entries id ?_
    intro h
    cases hi.symm.trans (h ▸ hid)

theorem Around.endRun (hi : w.isDriven i = true) : w.Around (w.endRun i run) where
  now := Nat.le_refl _
  runs := Eq.refl _
  series := Eq.refl _
  tokens := Eq.refl _
  fired := Eq.refl _
  behind id := by
    rw [isBehind_eq, isBehind_eq]
    by_cases h : id = i
    · rw [h, lookup_endRun, Option.isSome_map]
    · rw [lookup_endRun_ne h]
  fates id hid := by
    refine lookup_endRun_ne ?_
    intro h
    cases hi.symm.trans (h ▸ hid)
  entries _ _ := Eq.refl _

theorem Tends.rfl {w : World} : w.Tends w :=
  ⟨Eq.refl _, fun _ => id, fun _ => Eq.refl _, fun _ => id, fun notes _ hf =>
    ⟨notes, hf, fun _ _ => id, fun _ _ _ _ _ => .quiet (Nat.le_refl _) (Eq.refl _) (Eq.refl _)⟩⟩

theorem Tends.trans {w w₁ w₂ : World} (h : w.Tends w₁) (h' : w₁.Tends w₂) : w.Tends w₂ where
  now := h'.now.trans h.now
  fired k hk := h'.fired k (h.fired k hk)
  driven id := (h'.driven id).trans (h.driven id)
  behind id hid := h.behind id (h'.behind id hid)
  fine notes places hf := by
    obtain ⟨notes₁, hf₁, hmore₁, hdriven₁⟩ := h.fine notes places hf
    obtain ⟨notes₂, hf₂, hmore₂, hdriven₂⟩ := h'.fine notes₁ places hf₁
    refine ⟨notes₂, hf₂, fun id c hc => hmore₂ id c (hmore₁ id c hc), ?_⟩
    intro id k r hid hr
    have ho := hdriven₁ id k r hid hr
    obtain ⟨r₁, hr₁⟩ := ho.entry hr
    exact ho.trans (hdriven₂ id k r₁ ((h.driven id).trans hid) hr₁)

/-- A run in the foreground, which is not among those in the background. -/
theorem Tends.of_minds (hm : w.Minds i w') (hk : Known i k w none) (hk' : Known i k w' none)
    (hi : w.background.lookup i = none) : w.Tends w' where
  now := hm.now
  fired k hfired := (hm.isFired k).trans hfired
  driven id := isDriven_congr (by rw [hm.background])
  behind id hid := by rwa [isBehind_eq, ← hm.background, ← isBehind_eq]
  fine notes places hf := by
    have hnote := hf.note_of_known hk
    rw [← hnote] at hk hk'
    refine ⟨notes, hf.minds hm hk hk' (Or.inr ⟨hi, hnote⟩), fun _ _ => id, ?_⟩
    intro id k' r' hid hr'
    have hne : id ≠ i := by
      rintro h
      rw [h, isDriven_iff, hi] at hid
      cases hid
    exact .quiet (Nat.le_of_eq hm.now.symm) (hm.entries id hne) (hm.isFired k')

theorem Tends.addRun (hid : run.id = w.nextRun) (hnone : w.store.entry? run.id = none)
    (hlive : run.status ≠ .cancelled) : w.Tends (w.addRun run).2 where
  now := Eq.refl _
  fired _ := id
  driven _ := Eq.refl _
  behind _ := id
  fine notes places hf := by
    refine ⟨notes, hf.addRun hid hlive, fun _ _ => id, ?_⟩
    intro id k r _ hr
    refine .quiet (Nat.le_refl _) (Store.entry?_register_ne ?_) (Eq.refl _)
    rintro rfl
    simp [hr] at hnone

theorem Tends.fetchRun (hi : w.isDriven i = false) : w.Tends (w.fetchRun i).2 where
  now := Eq.refl _
  fired _ := id
  driven id := by
    by_cases h : id = i
    · rw [h, hi]
      unfold isDriven
      simp [lookup_fetchRun]
    · exact isDriven_congr (lookup_fetchRun_ne h)
  behind id hid := by
    by_cases h : id = i
    · rw [h, isBehind_eq, lookup_fetchRun] at hid
      cases hid
    · rwa [isBehind_eq, lookup_fetchRun_ne h, ← isBehind_eq] at hid
  fine notes places hf :=
    ⟨notes, hf.fetchRun hi, fun _ _ => id, fun _ _ _ _ _ =>
      .quiet (Nat.le_refl _) (Eq.refl _) (Eq.refl _)⟩

/-- A cancelled run as its driver sees it. -/
theorem meanwhile_cancelRun {e : StoredRun} (he : w.store.entry? i = some e)
    (hlive : e.run.status.isTerminal = false) (place : Place) :
    Meanwhile i e.token place w none (w.cancelRun i).2
      (some (w.cancellation i e.run place)) := by
  have hfired : (w.store.cancel i w.now).2.isFired e.token = true := by
    rw [Store.cancel_of_live he hlive]
    simp [Store.isFired]
  exact .cancelled (Eq.refl _) (Eq.refl _) (Nat.le_refl _) (Nat.le_refl _) he hlive
    (Store.entry?_cancel he hlive w.now) hfired

/-- Others do not see it. -/
theorem meanwhile_cancelRun_ne (hf : w.Fine notes) {e e' : StoredRun}
    (he : w.store.entry? i = some e) (he' : w.store.entry? id = some e') (hne : id ≠ i)
    (place : Place) {g : Option Cancellation} :
    Meanwhile id e'.token place w g (w.cancelRun i).2 g := by
  refine .quiet (Nat.le_refl _) (Store.entry?_cancel_ne (Ne.symm hne) w.now) ?_
  cases hlive : e.run.status.isTerminal with
  | true =>
    show (w.store.cancel i w.now).2.isFired e'.token = _
    rw [Store.cancel_of_terminal he hlive]
  | false =>
    have htoken : e'.token ≠ e.token := fun h => hne (hf.apart id i e' e he' he h)
    show (w.store.cancel i w.now).2.isFired e'.token = _
    rw [Store.cancel_of_live he hlive]
    simp [Store.isFired, htoken]

theorem Tends.cancelRun (w : World) (i : String) : w.Tends (w.cancelRun i).2 := by
  cases hcancelled : (w.cancelRun i).1 with
  | false =>
    rw [cancelRun_of_false hcancelled]
    exact .rfl
  | true =>
    obtain ⟨run, hrun, hlive⟩ := Store.cancel_fst.mp hcancelled
    obtain ⟨e, he, rfl⟩ := Store.exists_entry? hrun
    refine ⟨Eq.refl _, ?_, fun _ => Eq.refl _, fun _ => id, ?_⟩
    · intro k hk
      show (w.store.cancel i w.now).2.isFired k = true
      rw [Store.cancel_of_live he hlive]
      simpa [Store.isFired] using Or.inr hk
    · intro notes places hf
      have hnote := hf.note_of_live he hlive
      refine ⟨_, hf.cancelRun he hlive (places i), ?_, ?_⟩
      · intro id c hc
        have hne : id ≠ i := fun h => by simp [h ▸ hc] at hnote
        rw [Function.update_of_ne hne]
        exact hc
      · intro id k r hid hr
        by_cases hi : id = i
        · subst hi
          cases he.symm.trans hr
          rw [Function.update_self, hnote]
          exact meanwhile_cancelRun he hlive (places id)
        · rw [Function.update_of_ne hi]
          exact meanwhile_cancelRun_ne hf he hr hi (places id)

end

end World

/-- The pact of a request. -/
def requests : Pact World Unit where
  signals := World.signals
  others _ w _ w' _ := w.Around w'
  own _ w w' := w.Tends w'
  others_refl _ _ _ := .rfl
  others_trans _ _ _ _ _ _ _ := World.Around.trans
  own_refl _ _ := .rfl
  own_trans _ _ _ _ := World.Tends.trans

end Automation
