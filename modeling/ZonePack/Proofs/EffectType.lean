import ZonePack.Proofs.Document
import ZonePack.Proofs.Json.Refusing

/-!
# ZonePack.Proofs.EffectType

What an effect is read as for its type, whatever value stands there.

* `Authored.Effect.takes_of_type`, `Authored.Effect.refuses_of_type` — an effect is read
  or refused as its type is;
* `Authored.Effect.run_iff_of_type` — it is read with the mode that its type is decoded as,
  and refused for a type that is not decoded.
-/

namespace ZonePack

open Json (Ends Fault Member Reader Value)
open Json.Record (blocks_of_map)

namespace EffectMode

variable {type : Value} {room : Nat}

/-- A value that is decoded is taken for its mode. -/
theorem takes_nullable_of_ofValue? {mode : EffectMode} (hfits : type.FitsIn room)
    (h : ofValue? type = some mode) : (Json.nullable (reader room)).Takes type (some mode) := by
  have hnull : type ≠ .null := by
    rintro rfl
    cases h
  refine Json.takes_nullable_some ((Value.takes_reader hfits).refine ?_) hnull
  simp only [h]

/-- A value that is not decoded is refused, after it has been read. -/
theorem refuses_nullable_of_ofValue? (hfits : type.FitsIn room) (hnull : type ≠ .null)
    (h : ofValue? type = none) :
    (Json.nullable (reader room)).Refuses type (.schema (.noForm "RawEffectType")) := by
  refine ((Value.takes_reader hfits).refuses_refine ?_).nullable hnull
  simp only [h]

/-- A value that is nested too deep is refused for that, whatever is in it. -/
theorem refuses_nullable_of_not_fitsIn (h : ¬ type.FitsIn room) (hnull : type ≠ .null) :
    (Json.nullable (reader room)).Refuses type (.malformed .tooDeep) :=
  ((Value.refuses_reader h).refine _).nullable hnull

end EffectMode

namespace Authored.Effect

/-- The objects of an effect with a given type, which may be left out if it is null. -/
def OfType (id : String) (level : Option Int32) (type v : Value) : Prop :=
  v.IsObjectOf [
    .required "id" (· = .string id),
    .nullable "level" (fun n v => v = .integer n.toInt) level,
    ⟨"type", type matches .scalar .null, (· = type)⟩]

variable {id : String} {level : Option Int32} {type v : Value} {room : Nat}

theorem eq_null_of_matches (h : type matches .scalar .null) : type = .null := by
  split at h
  · rfl
  · cases h

/-- An effect is read with what its type is taken for. -/
theorem takes_of_type (h : OfType id level type v) {mode : Option EffectMode}
    (hnull : type = .null → mode = none)
    (htype : (Json.nullable (EffectMode.reader room)).Takes type mode) :
    (record.reader (room + 1)).Takes v ⟨id, level, mode⟩ := by
  have hmode : ∀ v, v = type → (Json.nullable (EffectMode.reader room)).Takes v mode := by
    rintro v rfl
    exact htype
  refine Json.Record.takes_object (draft ⟨id, level, mode⟩) rfl (by simp [record]) ?_ ?_ h
  · simp only [List.forall_mem_cons]
    exact ⟨fills_id _ _, fills_level _ _, fills_type hmode, by simp⟩
  · intro keys hkeys
    simp only [List.forall_mem_cons] at hkeys
    obtain ⟨hid, hlevel, hoptional, -⟩ := hkeys
    refine build_draft (Member.key_mem_of_required hid) hlevel (hoptional.imp_left fun h => ?_)
    rw [hnull (eq_null_of_matches h)]
    rfl

/-- An effect is refused if its type is. -/
theorem refuses_of_type (h : OfType id level type v) (hnull : type ≠ .null) {fault : Fault}
    (htype : (Json.nullable (EffectMode.reader room)).Refuses type fault) :
    (record.reader (room + 1)).Refuses v fault := by
  refine Json.Record.refuses_object "type" (draft ⟨id, level, none⟩) rfl (by simp [record])
    ?_ ?_ ?_ h
  · simp only [List.forall_mem_cons]
    exact ⟨fun _ => fills_id _ _, fun _ => fills_level _ _, fun h => absurd rfl h, by simp⟩
  · simp only [List.forall_mem_cons]
    refine ⟨fun h => absurd h (by simp), fun h => absurd h (by simp), fun _ => ?_, by simp⟩
    refine blocks_of_map (.tail _ (.tail _ (.head _))) (fun _ => rfl) ?_
    rintro v rfl
    exact htype
  · refine ⟨_, .tail _ (.tail _ (.head _)), ?_, rfl⟩
    exact Bool.eq_false_iff.2 fun h => hnull (eq_null_of_matches h)

/-- What an effect is read as for its type: the mode that is documented as it; the constant
mode for an object of the word with null; and everything else is refused, as no form of a
type, or for its depth. -/
theorem run_iff_of_type (h : OfType id level type v) {s rest : List Char} (hs : v.Spelled s)
    (hrest : Ends rest) (room : Nat) :
    let read := (record.reader (room + 1)).run (s ++ rest)
    (∀ mode, (∃ e, read = .ok (e, rest) ∧ e.normalize.mode = mode) ↔
      type.FitsIn room ∧
        (mode.DocumentedAs type ∨ mode = .constant ∧ type = .object [("constant", .null)])) ∧
    (type.FitsIn room → (∀ mode : EffectMode, ¬ mode.DocumentedAs type) →
      type ≠ .object [("constant", .null)] →
      read = .error (.schema (.noForm "RawEffectType"))) ∧
    (¬ type.FitsIn room → read = .error (.malformed .tooDeep)) := by
  intro read
  have hok : ∀ {mode}, (type = .null → mode = none) →
      (Json.nullable (EffectMode.reader room)).Takes type mode →
      read = .ok (⟨id, level, mode⟩, rest) :=
    fun hnull htype => takes_of_type h hnull htype s rest hs hrest
  have herror : ∀ {fault}, type ≠ .null →
      (Json.nullable (EffectMode.reader room)).Refuses type fault → read = .error fault :=
    fun hnull htype => refuses_of_type h hnull htype s rest hs hrest
  simp only [← EffectMode.eq_null_or_ofValue?_iff]
  by_cases hnull : type = .null
  · subst hnull
    have hread := hok (fun _ => rfl) (Json.takes_nullable_null _)
    have hdocumented : EffectMode.DocumentedAs .constant .null := .inl rfl
    refine ⟨fun mode => ?_, fun _ hnone => absurd hdocumented (hnone _), fun h => absurd ?_ h⟩
    · simp [hread, normalize, Value.null, EffectMode.ofValue?, eq_comm]
    · exact Value.fitsIn_scalar _ _
  by_cases hfits : type.FitsIn room
  · cases hmode : EffectMode.ofValue? type with
    | some mode =>
      have hread := hok (absurd · hnull) (EffectMode.takes_nullable_of_ofValue? hfits hmode)
      refine ⟨fun mode => ?_, fun _ hnone hne => ?_, absurd hfits⟩
      · simp [hread, normalize, hnull, hfits]
      · have := EffectMode.ofValue?_eq_some_iff.1 hmode
        simp [hnone, hne] at this
    | none =>
      have hread := herror hnull (EffectMode.refuses_nullable_of_ofValue? hfits hnull hmode)
      simp [hread, hnull, hfits]
  · have hread := herror hnull (EffectMode.refuses_nullable_of_not_fitsIn hfits hnull)
    simp [hread, hfits]

/-- A type with another key between its pulse and its period, before the identifier. -/
theorem run_iff_of_type_with_other_key :
    let type : Value := .object [("pulse", .integer 3), ("note", .list [.null]),
      ("period", .integer 4)]
    let v : Value := .object [("type", type), ("id", .string "minecraft:darkness")]
    OfType "minecraft:darkness" none type v ∧ v.Spelled (v.prettyText 0) ∧ Ends [] ∧
      ∃ e, (record.reader 3).run (v.prettyText 0 ++ []) = .ok (e, []) ∧
        e.normalize.mode = .periodic 4 3 := by
  intro type v
  have hexact : v.IsExact := by
    have hint : ∀ n : UInt32, (Value.integer n.toNat).IsExact := .uint32
    have hlist : (Value.list [.null]).IsExact := .list (by simp [Value.IsExact.null])
    have htype : type.IsExact := .object (by simpa [type] using ⟨hint 3, hlist, hint 4⟩)
    exact .object (by simpa using ⟨htype, .string⟩)
  have htype : OfType "minecraft:darkness" none type v :=
    ⟨_, rfl, by simp, by simp [Member.required], by simp [Member.required, Member.nullable]⟩
  have hfits : type.FitsIn 2 := by
    simp [type, Value.FitsIn, Value.integer, Value.null]
  have hdocumented : EffectMode.DocumentedAs (.periodic 4 3) type :=
    ⟨_, rfl, by simp [EffectMode.HasOnce], by simp [EffectMode.HasOnce]⟩
  have hspelled := Value.spelled_prettyText hexact 0
  exact ⟨htype, hspelled, .nil,
    ((run_iff_of_type htype hspelled .nil 2).1 _).2 ⟨hfits, .inl hdocumented⟩⟩

/-- The object of the word with null is no documented type, and it is read as the constant
mode all the same. -/
theorem exists_undocumented_type_read :
    (∀ mode : EffectMode, ¬ mode.DocumentedAs (.object [("constant", .null)])) ∧
      ((record.reader 2).document
        "\x7b\"id\":\"e\",\"type\":\x7b\"constant\":null\x7d\x7d").map (·.normalize.mode) =
          .ok .constant := by
  refine ⟨fun mode h => ?_, by decide +kernel⟩
  cases mode with
  | constant => simp [EffectMode.DocumentedAs, Value.null, Value.string] at h
  | periodic period pulse =>
    obtain ⟨entries, heq, hperiod, -⟩ := h
    cases heq
    simp [EffectMode.HasOnce] at hperiod

end Authored.Effect

end ZonePack
