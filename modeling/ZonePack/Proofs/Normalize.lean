import Mathlib.Data.List.Nodup
import ZonePack.Authored

/-!
# ZonePack.Proofs.Normalize

What becomes of the lists of a plan when it is finished.

* `normalizeZones_eq_ok_iff` — zones are finished one by one, so a permuted list gives
  a permutation of the finished zones (`perm_of_normalizeZones`);
* `isPlaced_of_normalize` — each finished zone is on the axis of its list;
* `sortSteps_eq_of_perm` — where no two steps are at one distance, sorting forgets the
  order in which they were written.
-/

namespace ZonePack

/-! ## The list of an axis -/

namespace Config

/-- The list of zones for an axis. -/
def zonesOn (c : Config) : Axis → List Zone
  | .distance => c.distanceZones
  | .insanity => c.insanityZones

/-- Every zone is in one of the two lists. -/
theorem mem_zones_iff_zonesOn {c : Config} {z : Zone} :
    z ∈ c.zones ↔ ∃ axis, z ∈ c.zonesOn axis := by
  rw [zones, List.mem_append]
  constructor
  · rintro (hz | hz)
    · exact ⟨.distance, hz⟩
    · exact ⟨.insanity, hz⟩
  · rintro ⟨axis, hz⟩
    cases axis with
    | distance => exact .inl hz
    | insanity => exact .inr hz

/-- Whether every zone is on the axis of the list it is in. -/
def IsPlaced (c : Config) : Prop := ∀ axis, ∀ z ∈ c.zonesOn axis, z.axis = axis

/-- Then a zone is in the list for its axis. -/
theorem IsPlaced.mem_zonesOn {c : Config} (h : c.IsPlaced) {z : Zone} (hz : z ∈ c.zones) :
    z ∈ c.zonesOn z.axis := by
  obtain ⟨axis, hz⟩ := mem_zones_iff_zonesOn.1 hz
  rwa [h axis z hz]

end Config

namespace Authored

/-- The list of zones for an axis, as written. -/
def zonesOn (a : Authored) : Axis → List Zone
  | .distance => a.distanceZones
  | .insanity => a.insanityZones

/-! ## Zones -/

/-- A finished zone is on the axis that was asked for. -/
theorem Zone.axis_of_normalize? {axis : Axis} {z : Zone} {zone : ZonePack.Zone}
    (h : z.normalize? axis = some zone) : zone.axis = axis := by
  obtain ⟨bounds, -, rfl⟩ := Option.map_eq_some_iff.1 h
  rfl

section

variable {axis : Axis} {index other : Nat} {zones others : List Zone}
  {finished reordered : List ZonePack.Zone}

/-- Zones are finished one by one. -/
theorem normalizeZones_eq_ok_iff : normalizeZones axis index zones = .ok finished ↔
    zones.map (·.normalize? axis) = finished.map some := by
  induction zones generalizing index finished with
  | nil => cases finished <;> simp [normalizeZones]
  | cons z zones ih =>
    rw [normalizeZones, List.map_cons]
    cases z.normalize? axis with
    | none => cases finished <;> simp
    | some zone =>
      cases finished with
      | nil => cases normalizeZones axis (index + 1) zones <;> simp [Except.map]
      | cons first rest =>
        have hrest : normalizeZones axis (index + 1) zones = .ok rest ↔ _ := ih
        rw [List.map_cons, List.cons.injEq, Option.some_inj, ← hrest]
        cases normalizeZones axis (index + 1) zones <;> simp [Except.map]

/-- The finished zones of a list are those of its zones that can be finished. -/
theorem eq_filterMap_of_normalizeZones (h : normalizeZones axis index zones = .ok finished) :
    finished = zones.filterMap (·.normalize? axis) := by
  have hid := congrArg (List.filterMap id) (normalizeZones_eq_ok_iff.1 h)
  simpa [List.filterMap_map] using hid.symm

/-- Zones in another order are finished in that order. -/
theorem perm_of_normalizeZones (h : zones.Perm others)
    (hzones : normalizeZones axis index zones = .ok finished)
    (hothers : normalizeZones axis other others = .ok reordered) : finished.Perm reordered := by
  rw [eq_filterMap_of_normalizeZones hzones, eq_filterMap_of_normalizeZones hothers]
  exact h.filterMap _

end

/-! ## Steps -/

/-- Sorting keeps the steps. -/
theorem perm_sortSteps (steps : List GainStep) : (sortSteps steps).Perm steps :=
  List.mergeSort_perm _ _

theorem distance_le_trans (a b c : GainStep) (hab : decide (a.distance ≤ b.distance) = true)
    (hbc : decide (b.distance ≤ c.distance) = true) : decide (a.distance ≤ c.distance) = true := by
  simp only [decide_eq_true_eq] at hab hbc ⊢
  exact Int64.le_trans hab hbc

theorem distance_le_total (a b : GainStep) :
    (decide (a.distance ≤ b.distance) || decide (b.distance ≤ a.distance)) = true := by
  simpa using Int64.le_total a.distance b.distance

/-- Sorted steps ascend. -/
theorem pairwise_sortSteps (steps : List GainStep) :
    (sortSteps steps).Pairwise (·.distance ≤ ·.distance) := by
  simpa [sortSteps] using List.pairwise_mergeSort distance_le_trans distance_le_total steps

/-- Steps at different distances are sorted in one way only. -/
theorem sortSteps_eq_of_perm {steps others : List GainStep} (h : steps.Perm others)
    (hnodup : (steps.map (·.distance)).Nodup) : sortSteps steps = sortSteps others := by
  have hperm : (sortSteps steps).Perm (sortSteps others) :=
    ((perm_sortSteps steps).trans h).trans (perm_sortSteps others).symm
  refine hperm.eq_of_pairwise (fun a b ha hb hab hba => ?_) (pairwise_sortSteps steps)
    (pairwise_sortSteps others)
  have ha : a ∈ steps := (perm_sortSteps steps).mem_iff.1 ha
  have hb : b ∈ steps := h.mem_iff.2 ((perm_sortSteps others).mem_iff.1 hb)
  exact List.inj_on_of_nodup_map hnodup ha hb (Int64.le_antisymm hab hba)

/-! ## Plans -/

/-- A plan is finished list by list. -/
theorem normalize_eq_ok_iff {a : Authored} {c : Config} : a.normalize = .ok c ↔
    c.gainSteps = sortSteps a.gainSteps ∧
      ∀ axis, normalizeZones axis 0 (a.zonesOn axis) = .ok (c.zonesOn axis) := by
  obtain ⟨steps, distanceZones, insanityZones⟩ := c
  have hall (p : Axis → Prop) : (∀ axis, p axis) ↔ p .distance ∧ p .insanity :=
    ⟨fun h => ⟨h _, h _⟩, fun h axis => by cases axis <;> simp [h]⟩
  rw [hall, normalize]
  simp only [zonesOn, Config.zonesOn]
  cases normalizeZones .distance 0 a.distanceZones <;>
    cases normalizeZones .insanity 0 a.insanityZones <;>
      simp [bind, Except.bind, pure, Except.pure, eq_comm]

/-- In a finished plan each zone is on the axis of its list. -/
theorem isPlaced_of_normalize {a : Authored} {c : Config} (h : a.normalize = .ok c) :
    c.IsPlaced := by
  intro axis zone hzone
  rw [eq_filterMap_of_normalizeZones ((normalize_eq_ok_iff.1 h).2 axis)] at hzone
  obtain ⟨z, -, hz⟩ := List.mem_filterMap.1 hzone
  exact Zone.axis_of_normalize? hz

end Authored

end ZonePack
