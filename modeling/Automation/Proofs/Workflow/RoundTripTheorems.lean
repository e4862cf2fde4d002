/-
Automation.Proofs.Workflow.RoundTripTheorems — a workflow reads back from
what is written of it.

A workflow is read from many forms: fields under other names, records as
lists, variants as objects, dates with an offset, and what is left out. It is
written in one. What is read is sound (`Workflow.Sound`): its numbers are in
range, its free values in order, its dates moments of the calendar or the
reading of the clock that stands for a missing one. And each part that is
sound reads back (`Node.decode_toJson`, `Settings.decode_toJson`), so a
workflow that was read in any form is what its one written form gives.
-/
import Automation.Proofs.Decode.ReaderTheorems
import Automation.Proofs.Time.MomentTheorems
import Automation.Workflow.Decode
import Automation.Workflow.Encode

namespace Automation

open Automation.Decode
open Automation.Json (Value Fields)
open Automation.Time (Face Moment Timestamp)

/-! ## Scalars -/

/-- The names tell the variants apart, and every variant has one. -/
structure Naming {α : Type} (known : List (String × α)) : Prop where
  names : (known.map (·.1)).Nodup
  variants : ∀ a, a ∈ known.map (·.2)

theorem variant_ofValue {α : Type} [DecidableEq α] {known : List (String × α)} (h : Naming known)
    (a : α) : variant known (.ofValue (variantJson known a)) = .ok a := by
  obtain ⟨entry, hentry⟩ : ∃ entry, known.find? (fun entry => entry.2 == a) = some entry := by
    obtain ⟨entry, hmem, heq⟩ := List.mem_map.mp (h.variants a)
    exact Option.isSome_iff_exists.mp (List.find?_isSome.mpr ⟨entry, hmem, beq_iff_eq.mpr heq⟩)
  have hname : nameIn known a = entry.1 := by simp [nameIn, hentry]
  have hvariant : entry.2 = a := by simpa using List.find?_some hentry
  have hnamed : known.find? (fun variant => variant.1 == entry.1) = some entry := by
    obtain ⟨front, back, rfl⟩ := List.append_of_mem (List.mem_of_find?_eq_some hentry)
    have hnames := h.names
    rw [List.map_append, List.map_cons] at hnames
    refine List.find?_eq_some_iff_append.mpr ⟨beq_self_eq_true _, front, back, rfl, ?_⟩
    intro other hother
    have hne := (List.nodup_append.mp hnames).2.2 other.1 (List.mem_map_of_mem hother) entry.1
      List.mem_cons_self
    simpa using hne
  rw [variantJson, hname, Json.Outline.ofValue, variant, variantNamed, hnamed]
  exact congrArg Except.ok hvariant

theorem NodeType.naming : Naming NodeType.names :=
  ⟨by decide, fun t => by cases t <;> decide⟩

theorem VariableType.naming : Naming VariableType.names :=
  ⟨by decide, fun t => by cases t <;> decide⟩

theorem VariableScope.naming : Naming VariableScope.names :=
  ⟨by decide, fun s => by cases s <;> decide⟩

theorem LogLevel.naming : Naming LogLevel.names :=
  ⟨by decide, fun l => by cases l <;> decide⟩

theorem ErrorHandling.naming : Naming ErrorHandling.names :=
  ⟨by decide, fun h => by cases h <;> decide⟩

theorem Category.naming : Naming Category.names :=
  ⟨by decide, fun c => by cases c <;> decide⟩

/-- A point in time that is the clock's or a moment of the calendar. -/
def Time.Timestamp.Sound (t now : Timestamp) : Prop :=
  t = now ∨ ∃ m : Moment, m.Valid ∧ t = .moment m

theorem yields_decodeTimestamp (now : Timestamp) :
    Yields decodeTimestamp fun t => t.Sound now := by
  intro o t h
  obtain ⟨m, hm, rfl⟩ := map_eq_ok.mp h
  refine .inr ⟨m, ?_, rfl⟩
  unfold moment at hm
  split at hm
  · next s =>
    cases hread : Moment.read s with
    | error e =>
      rw [hread] at hm
      cases hm
    | ok found =>
      rw [hread] at hm
      cases hm
      exact Moment.read_valid hread
  · exact absurd hm (refuse_ne_ok _ _ _)

/-- The point in time, with the moment that the clock showed in place of the
clock. -/
def Time.Timestamp.fixed (t now : Timestamp) (m : Moment) : Timestamp :=
  if t = now then .moment m else t

theorem Time.Timestamp.render_fixed {face : Face} {now : Timestamp} {m : Moment}
    (hnow : now.render face = m.render) (t : Timestamp) :
    (t.fixed now m).render face = t.render face := by
  unfold fixed
  split
  · next heq => exact heq ▸ hnow.symm
  · rfl

theorem decodeTimestamp_toJson {face : Face} {now : Timestamp} {m : Moment} (hm : m.Valid)
    (hnow : now.render face = m.render) {t : Timestamp} (h : t.Sound now) :
    decodeTimestamp (.ofValue (t.toJson face)) = .ok (t.fixed now m) := by
  have hread : ∀ found : Moment, found.Valid →
      decodeTimestamp (.ofValue (.string found.render)) = .ok (.moment found) := by
    intro found hfound
    rw [decodeTimestamp, Json.Outline.ofValue, moment, Moment.read_render hfound]
    rfl
  unfold Timestamp.fixed
  split
  · next heq => rw [heq, Timestamp.toJson, hnow, hread m hm]
  · next hne =>
    obtain ⟨found, hfound, rfl⟩ := h.resolve_left hne
    exact hread found hfound

/-! ## The parts of a workflow -/

section

open Reader

theorem Port.decode_toJson (port : Port) : Port.decode (.ofValue port.toJson) = .ok port :=
  ((readsBack_ofField (text_ofValue port.id)).map Port.mk
    |>.seq (readsBack_ofField (optionalText_ofValue port.name))
    |>.seq (readsBack_ofField (optionalText_ofValue port.dataType))
    |>.decode (by decide) _)

/-- A node whose free value is in order. -/
def Node.Sound (node : Node) : Prop :=
  node.data.Ordered

theorem Node.yields_decode : Yields Node.decode Node.Sound := by
  refine ((gives_required (yields_true text)).map ?_
    |>.seq (gives_required (yields_true (variant NodeType.names)))
    |>.seq (gives_perhaps (yields_true text))
    |>.seq (gives_optional yields_any (by trivial))
    |>.seq (gives_optional (yields_true (list Port.decode)) trivial)
    |>.seq (gives_optional (yields_true (list Port.decode)) trivial)
    |>.decode _)
  exact fun id _ type _ name _ data hdata inputs _ outputs _ => hdata

theorem Node.decode_toJson {node : Node} (h : node.Sound) :
    Node.decode (.ofValue node.toJson) = .ok node :=
  ((readsBack_ofField (text_ofValue node.id)).map Node.mk
    |>.seq (readsBack_ofField (variant_ofValue NodeType.naming node.type))
    |>.seq (readsBack_ofField (optionalText_ofValue node.name))
    |>.seq (readsBack_ofField (any_ofValue h))
    |>.seq (readsBack_ofField (list_ofValue fun port _ => port.decode_toJson))
    |>.seq (readsBack_ofField (list_ofValue fun port _ => port.decode_toJson))
    |>.decode (by decide) _)

theorem Connection.decode_toJson (c : Connection) :
    Connection.decode (.ofValue c.toJson) = .ok c :=
  ((readsBack_ofField (text_ofValue c.id)).map Connection.mk
    |>.seq (readsBack_ofField (text_ofValue c.source))
    |>.seq (readsBack_ofField (text_ofValue c.target))
    |>.seq (readsBack_ofField (optionalText_ofValue c.sourcePort))
    |>.seq (readsBack_ofField (optionalText_ofValue c.targetPort))
    |>.decode (by decide) _)

/-- A variable whose free value is in order. -/
def Variable.Sound (v : Variable) : Prop :=
  v.default.Ordered

theorem Variable.yields_decode : Yields Variable.decode Variable.Sound := by
  refine ((gives_required (yields_true text)).map ?_
    |>.seq (gives_required (yields_true (variant VariableType.names)))
    |>.seq (gives_optional yields_any (by trivial))
    |>.seq (gives_optional (yields_true (variant VariableScope.names)) trivial)
    |>.seq (gives_perhaps (yields_true text))
    |>.decode _)
  exact fun name _ type _ default hdefault scope _ description _ => hdefault

theorem Variable.decode_toJson {v : Variable} (h : v.Sound) :
    Variable.decode (.ofValue v.toJson) = .ok v :=
  ((readsBack_ofField (text_ofValue v.name)).map Variable.mk
    |>.seq (readsBack_ofField (variant_ofValue VariableType.naming v.type))
    |>.seq (readsBack_ofField (any_ofValue h))
    |>.seq (readsBack_ofField (variant_ofValue VariableScope.naming v.scope))
    |>.seq (readsBack_ofField (optionalText_ofValue v.description))
    |>.decode (by decide) _)

/-- A policy whose numbers are in range. -/
structure RetryPolicy.Sound (policy : RetryPolicy) : Prop where
  maxAttempts : IntegerRange.u32.holds policy.maxAttempts
  backoff : IntegerRange.u64.holds policy.backoff

theorem RetryPolicy.yields_decode : Yields RetryPolicy.decode RetryPolicy.Sound := by
  refine ((gives_optional (yields_natural .u32 (by decide)) (by decide)).map ?_
    |>.seq (gives_optional (yields_natural .u64 (by decide)) (by decide))
    |>.seq (gives_optional (yields_true double) trivial)
    |>.decode _)
  exact fun maxAttempts hmax backoff hbackoff multiplier _ => ⟨hmax, hbackoff⟩

theorem RetryPolicy.decode_toJson {policy : RetryPolicy} (h : policy.Sound) :
    RetryPolicy.decode (.ofValue policy.toJson) = .ok policy :=
  ((readsBack_ofField (natural_ofValue h.maxAttempts)).map RetryPolicy.mk
    |>.seq (readsBack_ofField (natural_ofValue h.backoff))
    |>.seq (readsBack_ofField (double_ofValue policy.multiplier))
    |>.decode (by decide) _)

theorem Logging.decode_toJson (logging : Logging) :
    Logging.decode (.ofValue logging.toJson) = .ok logging :=
  ((readsBack_ofField (boolean_ofValue logging.enabled)).map Logging.mk
    |>.seq (readsBack_ofField (variant_ofValue LogLevel.naming logging.level))
    |>.decode (by decide) _)

/-- Settings whose numbers are in range. -/
structure Settings.Sound (settings : Settings) : Prop where
  timeout : ∀ ms ∈ settings.timeout, IntegerRange.u64.holds ms
  retryPolicy : settings.retryPolicy.Sound

theorem Settings.yields_decode : Yields Settings.decode Settings.Sound := by
  refine ((gives_perhaps (yields_natural .u64 (by decide))).map ?_
    |>.seq (gives_optional RetryPolicy.yields_decode ⟨by decide, by decide⟩)
    |>.seq (gives_optional (yields_true (variant ErrorHandling.names)) trivial)
    |>.seq (gives_optional (yields_true Logging.decode) trivial)
    |>.decode _)
  exact fun timeout htimeout policy hpolicy handling _ logging _ => ⟨htimeout, hpolicy⟩

theorem Settings.decode_toJson {settings : Settings} (h : settings.Sound) :
    Settings.decode (.ofValue settings.toJson) = .ok settings :=
  ((readsBack_ofField (nullable_ofValue (fun _ h => by cases h) fun ms hms =>
      natural_ofValue (h.timeout ms hms))).map Settings.mk
    |>.seq (readsBack_ofField (RetryPolicy.decode_toJson h.retryPolicy))
    |>.seq (readsBack_ofField (variant_ofValue ErrorHandling.naming settings.errorHandling))
    |>.seq (readsBack_ofField settings.logging.decode_toJson)
    |>.decode (by decide) _)

/-- A workflow that can be read: its numbers are in range, its free values in
order, its dates those of the calendar or `now`. -/
structure Workflow.Sound (w : Workflow) (now : Timestamp) : Prop where
  version : IntegerRange.u32.holds w.version
  nodes : ∀ node ∈ w.nodes, node.Sound
  vars : ∀ v ∈ w.vars, v.Sound
  settings : w.settings.Sound
  metadata : (Value.object w.metadata).Ordered
  createdAt : w.createdAt.Sound now
  updatedAt : w.updatedAt.Sound now

theorem Workflow.yields_decode (now : Timestamp) :
    Yields (Workflow.decode now) fun w => w.Sound now := by
  refine ((gives_required (yields_true text)).map ?_
    |>.seq (gives_required (yields_true text))
    |>.seq (gives_perhaps (yields_true text))
    |>.seq (gives_optional (yields_natural .u32 (by decide)) (by decide))
    |>.seq (gives_optional (yields_true (variant Category.names)) trivial)
    |>.seq (gives_required (yields_list Node.yields_decode))
    |>.seq (gives_optional (yields_true (list Connection.decode)) trivial)
    |>.seq (gives_optional (yields_list Variable.yields_decode) (by simp))
    |>.seq (gives_optional Settings.yields_decode ⟨by simp, by decide, by decide⟩)
    |>.seq (gives_optional yields_fields ⟨.nil, trivial⟩)
    |>.seq (gives_optional (yields_true boolean) trivial)
    |>.seq (gives_perhaps (yields_true text))
    |>.seq (gives_optional (yields_decodeTimestamp now) (.inl rfl))
    |>.seq (gives_optional (yields_decodeTimestamp now) (.inl rfl))
    |>.decode _)
  exact fun id _ name _ description _ version hversion category _ nodes hnodes connections _
    vars hvars settings hsettings metadata hmetadata enabled _ createdBy _ createdAt hcreated
    updatedAt hupdated =>
    ⟨hversion, hnodes, hvars, hsettings, hmetadata, hcreated, hupdated⟩

/-- The workflow, with the moment that the clock showed in place of the
clock. -/
def Workflow.fixed (w : Workflow) (now : Timestamp) (m : Moment) : Workflow :=
  { w with
    createdAt := w.createdAt.fixed now m
    updatedAt := w.updatedAt.fixed now m }

theorem Workflow.decode_toJson {face : Face} {now : Timestamp} {m : Moment} (hm : m.Valid)
    (hnow : now.render face = m.render) {w : Workflow} (h : w.Sound now) (later : Timestamp) :
    Workflow.decode later (.ofValue (w.toJson face)) = .ok (w.fixed now m) := by
  refine ((readsBack_ofField (text_ofValue w.id)).map Workflow.mk
    |>.seq (readsBack_ofField (text_ofValue w.name))
    |>.seq (readsBack_ofField (optionalText_ofValue w.description))
    |>.seq (readsBack_ofField (natural_ofValue h.version))
    |>.seq (readsBack_ofField (variant_ofValue Category.naming w.category))
    |>.seq (readsBack_ofField
      (list_ofValue fun node hnode => Node.decode_toJson (h.nodes node hnode)))
    |>.seq (readsBack_ofField (list_ofValue fun c _ => c.decode_toJson))
    |>.seq (readsBack_ofField (list_ofValue fun v hv => Variable.decode_toJson (h.vars v hv)))
    |>.seq (readsBack_ofField (Settings.decode_toJson h.settings))
    |>.seq (readsBack_ofField (fields_ofValue h.metadata))
    |>.seq (readsBack_ofField (boolean_ofValue w.enabled))
    |>.seq (readsBack_ofField (optionalText_ofValue w.createdBy))
    |>.seq (readsBack_ofField (decodeTimestamp_toJson hm hnow h.createdAt))
    |>.seq (readsBack_ofField (decodeTimestamp_toJson hm hnow h.updatedAt))
    |>.decode ?_ _)
  show ["id", "name", "description", "version", "category", "nodes", "connections", "variables",
    "settings", "metadata", "enabled", "createdBy", "createdAt", "updatedAt"].Nodup
  decide

end

/-- **What is written of a workflow reads back.** A workflow that was read in
any of the accepted forms is written as a value that is read again, at
whatever time, and into the same workflow; its missing dates are then those
that the clock showed when it was first read. What is written of it is the
same value again. -/
theorem Workflow.reads_back {face : Face} {now : Timestamp} {m : Moment} (hm : m.Valid)
    (hnow : now.render face = m.render) {o : Json.Outline} {w : Workflow}
    (h : Workflow.decode now o = .ok w) :
    (∀ later, Workflow.decode later (.ofValue (w.toJson face)) = .ok (w.fixed now m)) ∧
      (w.fixed now m).toJson face = w.toJson face ∧ (now = .moment m → w.fixed now m = w) := by
  refine ⟨decode_toJson hm hnow (yields_decode now h), ?_, ?_⟩
  · simp only [toJson, fixed, Timestamp.toJson, Timestamp.render_fixed hnow]
  · rintro rfl
    have hsame : ∀ t : Timestamp, t.fixed (.moment m) m = t := fun t => by
      unfold Timestamp.fixed
      split
      · next heq => exact heq.symm
      · rfl
    simp only [fixed, hsame]

/-- A workflow in a loose form: a node and a connection as lists, a category as
an object, one date in local time and the other one left out. -/
theorem Workflow.loose_reads_back :
    let m : Moment := ⟨1970, 1, 1, 0, 0, 0, 5000000⟩
    let o : Json.Outline := .object [
      (.string "name", .string "loose"),
      (.string "id", .string "w"),
      (.string "category", .object [(.string "approval", .null)] true),
      (.string "nodes", .array [.array [.string "a", .string "script", .null, .null, .array [] true,
        .array [] true] true] true),
      (.string "connections", .array [.array [.string "c", .string "a", .string "a", .null,
        .null] true] true),
      (.string "createdAt", .string "2024-2-9 1:05:00 +02:00")] true
    m.Valid ∧ (Timestamp.reading 5).render .utc = m.render ∧
    ∃ w, Workflow.decode (.reading 5) o = .ok w ∧
      (∀ later, Workflow.decode later (.ofValue (w.toJson .utc)) = .ok (w.fixed (.reading 5) m)) ∧
      (w.fixed (.reading 5) m).toJson .utc = w.toJson .utc ∧
      (.reading 5 = Timestamp.moment m → w.fixed (.reading 5) m = w) := by
  intro m o
  have hvalid : m.Valid := by decide
  have hshown : (Timestamp.reading 5).render .utc = m.render := rfl
  have hread : (Workflow.decode (.reading 5) o).isOk := by decide +kernel
  cases h : Workflow.decode (.reading 5) o with
  | error e => rw [h] at hread; cases hread
  | ok w => exact ⟨hvalid, hshown, w, rfl, reads_back hvalid hshown h⟩

end Automation
