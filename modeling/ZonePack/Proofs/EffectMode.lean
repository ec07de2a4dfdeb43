import ZonePack.Authored.Document

/-!
# ZonePack.Proofs.EffectMode

Which values are decoded as the mode of an effect.  `EffectMode.DocumentedAs` is the
documented form of each mode: the word `constant`, or an object with a period and a pulse;
null stands for the constant mode.

* `EffectMode.ofValue?_eq_some_iff` — a value is decoded as a mode if the mode is
  documented as it, and in one more case, an object of the word with null.
-/

namespace ZonePack

open Json (Value)

namespace EffectMode

/-- An object has a key exactly once, and a value for it. -/
def HasOnce (entries : List (String × Value)) (key : String) (v : Value) : Prop :=
  (entries.map (·.1)).count key = 1 ∧ (key, v) ∈ entries

/-- The values that are documented for a mode.  A periodic one may have other keys. -/
def DocumentedAs (mode : EffectMode) (v : Value) : Prop :=
  match mode with
  | .constant => v = .null ∨ v = .string "constant"
  | .periodic period pulse => ∃ entries, v = .object entries ∧
      HasOnce entries "period" (.integer period.toNat) ∧
      HasOnce entries "pulse" (.integer pulse.toNat)

/-! ## Decoding -/

theorem valueOnce?_eq_some_iff {key : String} {entries : List (String × Value)} {v : Value} :
    valueOnce? key entries = some v ↔ HasOnce entries key v := by
  have hcount : (entries.map (·.1)).count key = (entries.filter fun e => e.1 = key).length := by
    rw [List.count, List.countP_map, List.countP_eq_length_filter]
    rfl
  have hmem : (key, v) ∈ entries ↔ (key, v) ∈ entries.filter fun e => e.1 = key := by simp
  have hkey : ∀ e ∈ entries.filter (fun e => e.1 = key), e.1 = key := by simp
  rw [HasOnce, hcount, hmem, valueOnce?]
  generalize entries.filter (fun e => e.1 = key) = found at hkey
  rcases found with _ | ⟨⟨k, w⟩, _ | ⟨e, es⟩⟩
  · simp
  · obtain rfl : k = key := hkey _ List.mem_cons_self
    simp [eq_comm]
  · simp

theorem seconds?_toNat (n : UInt32) : seconds? (.integer n.toNat) = some n := by
  have hsize : n.toNat < 4294967296 := n.toNat_lt
  have hrange : 0 ≤ (n.toNat : Int) ∧ (n.toNat : Int) < UInt32.size := by
    simp only [UInt32.size]
    omega
  rw [Value.integer, seconds?, if_pos hrange]
  simp

theorem seconds?_eq_some_iff {v : Value} {n : UInt32} :
    seconds? v = some n ↔ v = .integer n.toNat := by
  constructor
  · intro h
    unfold seconds? at h
    split at h
    · rename_i k
      split at h
      · rename_i hk
        cases h
        have hsize : k.toNat < UInt32.size := by omega
        rw [UInt32.toNat_ofNat_of_lt' hsize, Int.toNat_of_nonneg hk.1, Value.integer]
      · cases h
    · cases h
  · rintro rfl
    exact seconds?_toNat n

/-- An object is decoded by its period and its pulse. -/
theorem ofValue?_object_eq_some_iff {entries : List (String × Value)} {mode : EffectMode}
    (hne : entries ≠ [("constant", .null)]) :
    ofValue? (.object entries) = some mode ↔ mode.DocumentedAs (.object entries) := by
  have hdo : ofValue? (.object entries) = some mode ↔ ∃ period pulse,
      HasOnce entries "period" (.integer period.toNat) ∧
      HasOnce entries "pulse" (.integer pulse.toNat) ∧ .periodic period pulse = mode := by
    rw [ofValue?]
    · simp [Option.bind_eq_some_iff, valueOnce?_eq_some_iff, seconds?_eq_some_iff]
    · exact hne
  rw [hdo]
  cases mode with
  | constant => simp [DocumentedAs, Value.null, Value.string]
  | periodic period pulse => simp [DocumentedAs]

/-- The only scalar that is decoded is the word. -/
theorem ofValue?_scalar_eq_some_iff {v : Json.Scalar} {mode : EffectMode} :
    ofValue? (.scalar v) = some mode ↔ mode = .constant ∧ v = .string "constant" := by
  by_cases hv : v = .string "constant"
  · subst hv
    simp [ofValue?, eq_comm]
  · have hnone : ofValue? (.scalar v) = none := by
      unfold ofValue?
      split
      case h_1 heq => exact absurd (Value.scalar.inj heq) hv
      case h_4 => rfl
      all_goals contradiction
    simp [hnone, hv]

/-- A value is decoded as a mode that is documented as it; only the object of the word with
null is decoded as well, and null is not. -/
theorem ofValue?_eq_some_iff {v : Value} {mode : EffectMode} :
    ofValue? v = some mode ↔
      v ≠ .null ∧ mode.DocumentedAs v ∨
      mode = .constant ∧ v = .object [("constant", .null)] := by
  cases v with
  | scalar v =>
    have hnull : Json.Scalar.string "constant" ≠ .null := by rintro ⟨⟩
    rw [ofValue?_scalar_eq_some_iff]
    cases mode with
    | constant => grind [DocumentedAs, Value.null, Value.string]
    | periodic period pulse => simp [DocumentedAs]
  | list items =>
    cases mode <;> simp [ofValue?, DocumentedAs, Value.null, Value.string]
  | object entries =>
    by_cases hne : entries = [("constant", .null)]
    · subst hne
      cases mode <;> simp [ofValue?, DocumentedAs, Value.null, Value.string, HasOnce]
    · have hobject : Value.object entries ≠ .null := by rintro ⟨⟩
      simp [ofValue?_object_eq_some_iff hne, hobject, hne]

/-- What is decoded, null included. -/
theorem eq_null_or_ofValue?_iff {v : Value} {mode : EffectMode} :
    v = .null ∧ mode = .constant ∨ ofValue? v = some mode ↔
      mode.DocumentedAs v ∨ mode = .constant ∧ v = .object [("constant", .null)] := by
  rw [ofValue?_eq_some_iff]
  by_cases hnull : v = .null
  · subst hnull
    cases mode <;> simp [DocumentedAs, Value.null]
  · simp [hnull]

end EffectMode

end ZonePack
