import Mathlib.Data.List.Nodup
import ZonePack.Proofs.EffectMode
import ZonePack.Proofs.Json.Pretty
import ZonePack.Proofs.Json.Reading

/-!
# ZonePack.Proofs.Document

Plans are read from their documents as they were meant.  `Authored.WrittenIn` says in
which documents an author may write a plan: what is missing may be left out or null,
keys may stand in any order, blanks before any token, and characters be escaped.

* `EffectMode.takes_reader`, `takes_stepRecord` and the three `takes_record` — each part
  of a plan is read from whatever it is written as;
* `Authored.exists_writtenIn` — every plan has a document;
* `Config.ofDocument_of_writtenIn` — and each of its documents is read as this plan.
-/

namespace ZonePack

open Json (IsBlanks IsHexDigit Member Reader Record SpelledString Value)
open Json.Record (afterReading afterReading_of_mem fills_of_map getD_afterReading
  join_afterReading)

/-! ## How a plan is written -/

namespace EffectMode

/-- A mode is written as a word, or as an object of its two numbers. -/
def WrittenAs (mode : EffectMode) (v : Value) : Prop :=
  match mode with
  | .constant => v = .string "constant"
  | .periodic period pulse => v.IsObjectOf [
      .required "period" (· = .integer period.toNat),
      .required "pulse" (· = .integer pulse.toNat)]

end EffectMode

namespace GainStep

/-- A gain step is written with both its numbers. -/
def WrittenAs (s : GainStep) (v : Value) : Prop :=
  v.IsObjectOf [
    .required "distance" (· = .integer s.distance.toInt),
    .required "amount" (· = .integer s.amount.toInt)]

end GainStep

namespace Authored

/-- An effect is written with its identifier, and with its level and its type if it has them. -/
def Effect.WrittenAs (e : Effect) (v : Value) : Prop :=
  v.IsObjectOf [
    .required "id" (· = .string e.id),
    .nullable "level" (fun n v => v = .integer n.toInt) e.level,
    .nullable "type" EffectMode.WrittenAs e.mode]

/-- A zone is written with its effect, and with the bounds that it has; what they are
called depends on the axis. -/
def Zone.WrittenAs (axis : Axis) (z : Zone) (v : Value) : Prop :=
  let bound (key : String) := Member.nullable key fun (n : Int64) v => v = .integer n.toInt
  v.IsObjectOf <| .required "effect" z.effect.WrittenAs ::
    match axis with
    | .distance => [bound "minDistance" z.min, bound "maxDistance" z.max]
    | .insanity => [bound "minInsanity" z.min, bound "maxInsanity" z.max]

/-- A plan is written with three lists; an empty one may be left out. -/
def WrittenAs (a : Authored) (v : Value) : Prop :=
  v.IsObjectOf [
    .items "insanityGain" GainStep.WrittenAs a.gainSteps,
    .items "distanceZones" (Zone.WrittenAs .distance) a.distanceZones,
    .items "insanityZones" (Zone.WrittenAs .insanity) a.insanityZones]

/-- The documents that a plan may be written in. -/
def WrittenIn (a : Authored) (text : String) : Prop :=
  ∃ v : Value, a.WrittenAs v ∧ v.SpelledBy text

end Authored

/-! ## Modes -/

namespace EffectMode

/-- A member that an object must have comes once. -/
theorem hasOnce_of_isObjectOf {members : List Member} {entries : List (String × Value)}
    (h : (Value.object entries).IsObjectOf members) {key : String} {v : Value}
    (hkey : key ∈ entries.map (·.1)) (hv : ∀ m ∈ members, m.key = key → ∀ w, m.holds w → w = v) :
    HasOnce entries key v := by
  obtain ⟨_, heq, hnodup, hmembers, -⟩ := h
  cases heq
  obtain ⟨⟨_, w⟩, he, rfl⟩ := List.mem_map.1 hkey
  obtain ⟨m, hm, hmkey, hholds⟩ := hmembers _ he
  exact ⟨List.count_eq_one_of_mem hnodup hkey, hv m hm hmkey w hholds ▸ he⟩

/-- A mode is written in a form that is documented for it. -/
theorem WrittenAs.documentedAs {mode : EffectMode} {v : Value} (h : mode.WrittenAs v) :
    mode.DocumentedAs v := by
  cases mode with
  | constant => exact .inr h
  | periodic period pulse =>
    obtain ⟨entries, rfl, -, -, hkeys⟩ := id h
    simp only [Member.required, List.forall_mem_cons, Bool.false_eq_true, false_or] at hkeys
    obtain ⟨hperiod, hpulse, -⟩ := hkeys
    exact ⟨entries, rfl, hasOnce_of_isObjectOf h hperiod (by simp [Member.required]),
      hasOnce_of_isObjectOf h hpulse (by simp [Member.required])⟩

theorem ne_null_of_writtenAs {mode : EffectMode} {v : Value} (h : mode.WrittenAs v) :
    v ≠ .null := by
  rintro rfl
  cases mode with
  | constant => cases h
  | periodic period pulse =>
    obtain ⟨entries, heq, -⟩ := h
    cases heq

/-- A mode is found in what it is written as. -/
theorem ofValue?_of_writtenAs {mode : EffectMode} {v : Value} (h : mode.WrittenAs v) :
    ofValue? v = some mode :=
  ofValue?_eq_some_iff.2 (.inl ⟨ne_null_of_writtenAs h, h.documentedAs⟩)

/-- A mode has one bracket at most. -/
theorem fitsIn_of_writtenAs {mode : EffectMode} {v : Value} (h : mode.WrittenAs v) (room : Nat) :
    v.FitsIn (room + 1) := by
  cases mode with
  | constant =>
    subst h
    exact Value.fitsIn_scalar _ _
  | periodic period pulse =>
    obtain ⟨entries, rfl, -, hmembers, -⟩ := h
    intro e he
    obtain ⟨m, hm, -, hholds⟩ := hmembers e he
    simp only [List.mem_cons, List.not_mem_nil, or_false] at hm
    obtain rfl | rfl := hm
    · rw [show e.2 = _ from hholds]
      exact Value.fitsIn_scalar _ _
    · rw [show e.2 = _ from hholds]
      exact Value.fitsIn_scalar _ _

theorem takes_reader {mode : EffectMode} {v : Value} (h : mode.WrittenAs v) (room : Nat) :
    (reader (room + 1)).Takes v mode := by
  refine (Value.takes_reader (fitsIn_of_writtenAs h room)).refine ?_
  simp only [ofValue?_of_writtenAs h]

end EffectMode

namespace Authored

/-! ## Effects -/

namespace Effect

/-- What of an effect has been read when some keys have been. -/
def draft (e : Effect) (keys : List String) : Draft where
  id := afterReading keys "id" e.id
  level := afterReading keys "level" e.level
  mode := afterReading keys "type" e.mode

/-- All of an effect has been read when its object ends. -/
theorem build_draft {e : Effect} {keys : List String} (hid : "id" ∈ keys)
    (hlevel : e.level.isNone ∨ "level" ∈ keys) (hmode : e.mode.isNone ∨ "type" ∈ keys) :
    record.build (e.draft keys) = .ok e := by
  simp [record, draft, afterReading_of_mem hid, join_afterReading hlevel, join_afterReading hmode]

theorem fills_id (e : Effect) (room : Nat) :
    record.Fills room e.draft (.required "id" (· = .string e.id)) :=
  fills_of_map (.head _) (fun _ => rfl) (fun keys => by simp [draft])
    fun _ => Json.takes_string

theorem fills_level (e : Effect) (room : Nat) :
    record.Fills room e.draft (.nullable "level" (fun n v => v = .integer n.toInt) e.level) :=
  fills_of_map (.tail _ (.head _)) (fun _ => rfl) (fun keys => by simp [draft])
    fun _ => Json.takes_nullable Json.takes_int32 Json.ne_null_of_integer

/-- An effect's type is what its reader takes it for. -/
theorem fills_type {e : Effect} {room : Nat} {isOptional : Bool} {holds : Value → Prop}
    (h : ∀ v, holds v → (Json.nullable (EffectMode.reader room)).Takes v e.mode) :
    record.Fills room e.draft ⟨"type", isOptional, holds⟩ :=
  fills_of_map (.tail _ (.tail _ (.head _))) (fun _ => rfl) (fun keys => by simp [draft]) h

theorem takes_record {e : Effect} {v : Value} (h : e.WrittenAs v) (room : Nat) :
    (record.reader (room + 2)).Takes v e := by
  refine Record.takes_object e.draft rfl (by simp [record]) ?_ ?_ h
  · simp only [List.forall_mem_cons]
    have htype : ∀ v, (Member.nullable "type" EffectMode.WrittenAs e.mode).holds v →
        (Json.nullable (EffectMode.reader (room + 1))).Takes v e.mode := fun v =>
      Json.takes_nullable (EffectMode.takes_reader · room) EffectMode.ne_null_of_writtenAs
    exact ⟨fills_id e _, fills_level e _, fills_type htype, by simp⟩
  · intro keys hkeys
    simp only [List.forall_mem_cons] at hkeys
    obtain ⟨hid, hlevel, hmode, -⟩ := hkeys
    exact build_draft (Member.key_mem_of_required hid) hlevel hmode

end Effect

/-! ## Gain steps -/

/-- What of a gain step has been read when some keys have been. -/
def stepDraft (s : GainStep) (keys : List String) : StepDraft where
  distance := afterReading keys "distance" s.distance
  amount := afterReading keys "amount" s.amount

/-- All of a gain step has been read when its object ends. -/
theorem build_stepDraft {s : GainStep} {keys : List String} (hdistance : "distance" ∈ keys)
    (hamount : "amount" ∈ keys) : stepRecord.build (stepDraft s keys) = .ok s := by
  simp [stepRecord, stepDraft, afterReading_of_mem hdistance, afterReading_of_mem hamount]

theorem takes_stepRecord {s : GainStep} {v : Value} (h : s.WrittenAs v) (room : Nat) :
    (stepRecord.reader (room + 1)).Takes v s := by
  refine Record.takes_object (stepDraft s) rfl (by simp [stepRecord]) ?_ ?_ h
  · simp only [List.forall_mem_cons]
    refine ⟨?distance, ?amount, by simp⟩
    case distance =>
      refine fills_of_map (.head _) (fun _ => rfl) (fun keys => by simp [stepDraft]) ?_
      exact fun v hv => Json.takes_whole hv room
    case amount =>
      refine fills_of_map (.tail _ (.head _)) (fun _ => rfl)
        (fun keys => by simp [stepDraft]) ?_
      exact fun v hv => Json.takes_whole hv room
  · intro keys hkeys
    simp only [List.forall_mem_cons] at hkeys
    obtain ⟨hdistance, hamount, -⟩ := hkeys
    exact build_stepDraft (Member.key_mem_of_required hdistance)
      (Member.key_mem_of_required hamount)

/-! ## Zones -/

namespace Zone

/-- What of a zone has been read when some keys have been. -/
def draft (axis : Axis) (z : Zone) (keys : List String) : Draft where
  min := afterReading keys (minKey axis) z.min
  max := afterReading keys (maxKey axis) z.max
  effect := afterReading keys "effect" z.effect

/-- All of a zone has been read when its object ends. -/
theorem build_draft {axis : Axis} {z : Zone} {keys : List String} (heffect : "effect" ∈ keys)
    (hmin : z.min.isNone ∨ minKey axis ∈ keys) (hmax : z.max.isNone ∨ maxKey axis ∈ keys) :
    (record axis).build (z.draft axis keys) = .ok z := by
  simp [record, draft, afterReading_of_mem heffect, join_afterReading hmin,
    join_afterReading hmax]

theorem takes_record {axis : Axis} {z : Zone} {v : Value} (h : z.WrittenAs axis v) (room : Nat) :
    ((record axis).reader (room + 3)).Takes v z := by
  have hmembers : v.IsObjectOf [
      .required "effect" z.effect.WrittenAs,
      .nullable (minKey axis) (fun n v => v = .integer n.toInt) z.min,
      .nullable (maxKey axis) (fun n v => v = .integer n.toInt) z.max] := by
    cases axis <;> exact h
  have hdraft : ∀ keys,
      { z.draft axis keys with min := some z.min } = z.draft axis (minKey axis :: keys) ∧
      { z.draft axis keys with max := some z.max } = z.draft axis (maxKey axis :: keys) ∧
      { z.draft axis keys with effect := some z.effect } = z.draft axis ("effect" :: keys) := by
    intro keys
    cases axis <;> simp [draft, minKey, maxKey]
  refine Record.takes_object (z.draft axis) rfl ?_ ?_ ?_ hmembers
  · cases axis <;> simp [record, minKey, maxKey]
  · simp only [List.forall_mem_cons]
    refine ⟨?effect, ?min, ?max, by simp⟩
    case effect =>
      refine fills_of_map (.tail _ (.tail _ (.head _))) (fun _ => rfl)
        (fun keys => (hdraft keys).2.2) ?_
      exact fun v hv => Effect.takes_record hv room
    case min =>
      refine fills_of_map (.head _) (fun _ => rfl) (fun keys => (hdraft keys).1) ?_
      exact fun v => Json.takes_nullable (Json.takes_whole · _) Json.ne_null_of_integer
    case max =>
      refine fills_of_map (.tail _ (.head _)) (fun _ => rfl) (fun keys => (hdraft keys).2.1) ?_
      exact fun v => Json.takes_nullable (Json.takes_whole · _) Json.ne_null_of_integer
  · intro keys hkeys
    simp only [List.forall_mem_cons] at hkeys
    obtain ⟨heffect, hmin, hmax, -⟩ := hkeys
    exact build_draft (Member.key_mem_of_required heffect) hmin hmax

end Zone

/-! ## Plans -/

/-- What of a plan has been read when some keys have been. -/
def draft (a : Authored) (keys : List String) : Draft where
  gainSteps := afterReading keys "insanityGain" a.gainSteps
  distanceZones := afterReading keys "distanceZones" a.distanceZones
  insanityZones := afterReading keys "insanityZones" a.insanityZones

/-- All of a plan has been read when its object ends. -/
theorem build_draft {a : Authored} {keys : List String}
    (hsteps : a.gainSteps.isEmpty ∨ "insanityGain" ∈ keys)
    (hdistance : a.distanceZones.isEmpty ∨ "distanceZones" ∈ keys)
    (hinsanity : a.insanityZones.isEmpty ∨ "insanityZones" ∈ keys) :
    record.build (a.draft keys) = .ok a := by
  simp [record, draft, getD_afterReading hsteps, getD_afterReading hdistance,
    getD_afterReading hinsanity]

theorem takes_record {a : Authored} {v : Value} (h : a.WrittenAs v) (room : Nat) :
    (record.reader (room + 5)).Takes v a := by
  refine Record.takes_object a.draft rfl (by simp [record]) ?_ ?_ h
  · simp only [List.forall_mem_cons]
    refine ⟨?steps, ?distance, ?insanity, by simp⟩
    case steps =>
      refine fills_of_map (.head _) (fun _ => rfl) (fun keys => by simp [draft]) ?_
      exact fun v => Json.takes_items (takes_stepRecord · _)
    case distance =>
      refine fills_of_map (.tail _ (.head _)) (fun _ => rfl) (fun keys => by simp [draft]) ?_
      exact fun v => Json.takes_items (Zone.takes_record · _)
    case insanity =>
      refine fills_of_map (.tail _ (.tail _ (.head _))) (fun _ => rfl)
        (fun keys => by simp [draft]) ?_
      exact fun v => Json.takes_items (Zone.takes_record · _)
  · intro keys hkeys
    simp only [List.forall_mem_cons] at hkeys
    obtain ⟨hsteps, hdistance, hinsanity, -⟩ := hkeys
    exact build_draft hsteps hdistance hinsanity

/-- A plan is read from every document that it is written in. -/
theorem ofDocument_eq_ok {a : Authored} {text : String} (h : a.WrittenIn text) :
    ofDocument text = .ok a := by
  obtain ⟨v, hv, htext⟩ := h
  exact (takes_record hv 122).document htext

end Authored

/-! ## Every plan has documents -/

theorem EffectMode.exists_writtenAs (mode : EffectMode) :
    ∃ v, mode.WrittenAs v ∧ v.IsExact := by
  cases mode with
  | constant => exact ⟨_, rfl, .string⟩
  | periodic period pulse =>
    refine Value.exists_isObjectOf (by simp) ?_
    simp only [List.forall_mem_cons]
    exact ⟨⟨_, rfl, .uint32 period⟩, ⟨_, rfl, .uint32 pulse⟩, by simp⟩

theorem GainStep.exists_writtenAs (s : GainStep) : ∃ v, s.WrittenAs v ∧ v.IsExact := by
  refine Value.exists_isObjectOf (by simp) ?_
  simp only [List.forall_mem_cons]
  exact ⟨⟨_, rfl, .int64 s.distance⟩, ⟨_, rfl, .int64 s.amount⟩, by simp⟩

namespace Authored

theorem Effect.exists_writtenAs (e : Effect) : ∃ v, e.WrittenAs v ∧ v.IsExact := by
  refine Value.exists_isObjectOf (by simp) ?_
  simp only [List.forall_mem_cons]
  refine ⟨⟨_, rfl, .string⟩, ?_, ?_, by simp⟩
  · refine Member.exists_nullable (fun n => ?_) "level" e.level
    exact ⟨_, rfl, .int32 n⟩
  · exact Member.exists_nullable EffectMode.exists_writtenAs "type" e.mode

theorem Zone.exists_writtenAs (axis : Axis) (z : Zone) : ∃ v, z.WrittenAs axis v ∧ v.IsExact := by
  have hbound : ∀ (key : String) (o : Option Int64),
      ∃ v, (Member.nullable key (fun n v => v = .integer n.toInt) o).holds v ∧ v.IsExact := by
    refine Member.exists_nullable fun n => ?_
    exact ⟨_, rfl, .int64 n⟩
  cases axis with
  | distance =>
    refine Value.exists_isObjectOf (by simp) ?_
    simp only [List.forall_mem_cons]
    exact ⟨z.effect.exists_writtenAs, hbound "minDistance" z.min, hbound "maxDistance" z.max,
      by simp⟩
  | insanity =>
    refine Value.exists_isObjectOf (by simp) ?_
    simp only [List.forall_mem_cons]
    exact ⟨z.effect.exists_writtenAs, hbound "minInsanity" z.min, hbound "maxInsanity" z.max,
      by simp⟩

theorem exists_writtenAs (a : Authored) : ∃ v, a.WrittenAs v ∧ v.IsExact := by
  refine Value.exists_isObjectOf (by simp) ?_
  simp only [List.forall_mem_cons]
  refine ⟨?_, ?_, ?_, by simp⟩
  · exact Member.exists_items GainStep.exists_writtenAs "insanityGain" a.gainSteps
  · exact Member.exists_items (Zone.exists_writtenAs .distance) "distanceZones" a.distanceZones
  · exact Member.exists_items (Zone.exists_writtenAs .insanity) "insanityZones" a.insanityZones

/-- Every plan can be written. -/
theorem exists_writtenIn (a : Authored) : ∃ text, a.WrittenIn text := by
  obtain ⟨v, hv, hexact⟩ := a.exists_writtenAs
  exact ⟨v.pretty, v, hv, Value.spelledBy_pretty hexact⟩

end Authored

/-! ## Documents of plans -/

namespace Config

/-- Every plan can be written in a document, and each of its documents is read as the
finished plan, or refused for the same zone without bounds. -/
theorem ofDocument_of_writtenIn (a : Authored) :
    (∃ text, a.WrittenIn text) ∧
      ∀ text, a.WrittenIn text → ofDocument text = a.normalize.mapError .unbounded := by
  refine ⟨a.exists_writtenIn, fun text h => ?_⟩
  rw [ofDocument, Authored.ofDocument_eq_ok h]

/-- A document with blanks and an escape, a null, two lists and a bound left out, and the
effect before the bound. -/
theorem ofDocument_of_writtenIn_escaped :
    ofDocument ("\x7b\"distanceZones\" : [\x7b\"effect\":\x7b\"id\":\"\\u00e9\"," ++
        "\"level\":null\x7d,\"maxDistance\":-5\x7d]\x7d") =
      .ok ⟨[], [⟨.distance, .below (-5), ⟨"é", 0, .constant⟩⟩], []⟩ := by
  let z : Authored.Zone := ⟨none, some (-5), ⟨"é", none, none⟩⟩
  let effect : Value := .object [("id", .string "é"), ("level", .null)]
  let zone : Value := .object [("effect", effect), ("maxDistance", .integer (-5))]
  let plan : Value := .object [("distanceZones", .list [zone])]
  have hwritten : Authored.WrittenAs ⟨[], [z], []⟩ plan := by
    have heffect : z.effect.WrittenAs effect :=
      ⟨_, rfl, by decide, by simp [Member.required, Member.nullable, z],
        by simp [Member.required, Member.nullable, z]⟩
    have hzone : z.WrittenAs .distance zone :=
      ⟨_, rfl, by decide, by simp [Member.required, Member.nullable, heffect, z],
        by simp [Member.required, Member.nullable, z]⟩
    exact ⟨_, rfl, by simp, by simp [Member.items, hzone], by simp [Member.items]⟩
  have hspelled : plan.SpelledBy ("\x7b\"distanceZones\" : [\x7b\"effect\":\x7b\"id\":" ++
      "\"\\u00e9\",\"level\":null\x7d,\"maxDistance\":-5\x7d]\x7d") := by
    have hblank : IsBlanks [' '] := .singleton (by decide)
    have hdigit : ∀ k < 16, IsHexDigit k k.digitChar := fun k hk => ⟨hk, .inl rfl⟩
    have hkey : ∀ key : String, (∀ c ∈ key.toList, c ≠ '"' ∧ c ≠ '\\' ∧ 0x20 ≤ c.toNat) →
        SpelledString key ('"' :: (key.toList ++ ['"'])) := fun _ h => .mk (.of_plain h)
    have hid : SpelledString "é" ('"' :: ('\\' :: 'u' :: ['0', '0', 'e', '9'] ++ [] ++ ['"'])) :=
      .mk (.cons (.unit (.mk (hdigit 0 (by decide)) (hdigit 0 (by decide))
        (hdigit 14 (by decide)) (hdigit 9 (by decide)))) .nil)
    have heffect := Value.Spelled.object .nil (.cons .first
      (.mk .nil (hkey "id" (by simp)) .nil (.scalar .nil (.string hid)))
      (.cons (.comma .nil) (.mk .nil (hkey "level" (by simp)) .nil (.scalar .nil .null))
        (.nil .nil)))
    have hmax : (Value.integer (-5)).Spelled ([] ++ (-5 : Int).repr.toList) :=
      .scalar .nil (.integer (by decide) (by decide))
    have hzone := Value.Spelled.object .nil (.cons .first
      (.mk .nil (hkey "effect" (by simp)) .nil heffect)
      (.cons (.comma .nil) (.mk .nil (hkey "maxDistance" (by simp)) .nil hmax) (.nil .nil)))
    have hzones := Value.Spelled.list hblank (.cons .first hzone (.nil .nil))
    have hplan := Value.Spelled.object .nil (.cons .first
      (.mk .nil (hkey "distanceZones" (by simp)) hblank hzones) (.nil .nil))
    exact ⟨_, [], hplan, .nil, by decide +kernel⟩
  refine ((ofDocument_of_writtenIn ⟨[], [z], []⟩).2 _ ⟨plan, hwritten, hspelled⟩).trans ?_
  decide +kernel

end Config

end ZonePack
