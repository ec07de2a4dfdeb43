import Mathlib.Algebra.Ring.Int.Defs
import ZonePack.Proofs.FailedRun
import ZonePack.Proofs.Normalize

/-!
# ZonePack.Proofs.Finishing

Exactly which plans are finished, and what they are finished to.

* `normalize_eq_error_iff` — the zone that a refusal names is the first one without bounds,
  and one on the distance axis comes before all on the other (`IsRefused`);
* `sortSteps_eq_iff` — sorting is told by its results alone: the same steps, ascending, and
  those at one distance as they were written (`IsStableSort`);
* `Zone.normalize?_eq_some_iff` — so is finishing a zone, field by field (`Finishes`).

`normalize_exact` puts these together.
-/

namespace ZonePack

namespace Authored

/-! ## The zone that is refused -/

/-- Whether the first zone without bounds stands at an index. -/
structure IsFirstUnbounded (zones : List Zone) (i : Nat) : Prop where
  unbounded : ∃ z ∈ zones[i]?, z.IsUnbounded
  bounded_before : ∀ z ∈ zones.take i, ¬ z.IsUnbounded

section

variable {axis : Axis} {start i : Nat} {z : Zone} {zones : List Zone} {e : UnboundedZone}

theorem not_isFirstUnbounded_nil : ¬ IsFirstUnbounded [] i := by
  rintro ⟨⟨z, hz, -⟩, -⟩
  simp at hz

theorem isFirstUnbounded_zero : IsFirstUnbounded (z :: zones) 0 ↔ z.IsUnbounded := by
  constructor
  · rintro ⟨⟨first, hfirst, hunbounded⟩, -⟩
    cases hfirst
    exact hunbounded
  · intro hz
    exact ⟨⟨z, rfl, hz⟩, by simp⟩

theorem isFirstUnbounded_succ :
    IsFirstUnbounded (z :: zones) (i + 1) ↔ ¬ z.IsUnbounded ∧ IsFirstUnbounded zones i := by
  constructor
  · rintro ⟨hfirst, hbefore⟩
    rw [List.take_succ_cons, List.forall_mem_cons] at hbefore
    exact ⟨hbefore.1, hfirst, hbefore.2⟩
  · rintro ⟨hz, hfirst, hbefore⟩
    refine ⟨hfirst, ?_⟩
    rw [List.take_succ_cons, List.forall_mem_cons]
    exact ⟨hz, hbefore⟩

/-- A list of zones is refused for the first one without bounds. -/
theorem normalizeZones_eq_error_iff : normalizeZones axis start zones = .error e ↔
    ∃ i, IsFirstUnbounded zones i ∧ e = ⟨axis, start + i⟩ := by
  induction zones generalizing start with
  | nil => simp [normalizeZones, not_isFirstUnbounded_nil]
  | cons z zones ih =>
    rw [normalizeZones]
    cases hz : z.normalize? axis with
    | none =>
      have hunbounded : z.IsUnbounded := (Zone.normalize?_eq_none_iff axis).1 hz
      have hzero {i : Nat} : IsFirstUnbounded (z :: zones) i ↔ i = 0 := by
        cases i with
        | zero => simp [isFirstUnbounded_zero, hunbounded]
        | succ i => simp [isFirstUnbounded_succ, hunbounded]
      simp [hzero, eq_comm]
    | some zone =>
      have hbounded : ¬ z.IsUnbounded := by
        rw [← Zone.normalize?_eq_none_iff axis, hz]
        simp
      have hrest : (normalizeZones axis (start + 1) zones).map (zone :: ·) = .error e ↔
          normalizeZones axis (start + 1) zones = .error e := by
        cases normalizeZones axis (start + 1) zones <;> simp [Except.map]
      rw [hrest, ih]
      constructor
      · rintro ⟨i, hi, rfl⟩
        exact ⟨i + 1, isFirstUnbounded_succ.2 ⟨hbounded, hi⟩, by rw [Nat.add_right_comm]; rfl⟩
      · rintro ⟨i, hi, rfl⟩
        cases i with
        | zero => exact absurd (isFirstUnbounded_zero.1 hi) hbounded
        | succ i => exact ⟨i, (isFirstUnbounded_succ.1 hi).2, by rw [Nat.add_right_comm]; rfl⟩

end

/-- Whether a refusal names the first zone without bounds in its list, and a list that comes
before it has none. -/
structure IsRefused (a : Authored) (e : UnboundedZone) : Prop where
  first : IsFirstUnbounded (a.zonesOn e.axis) e.index
  distance_before : e.axis = .insanity → ∀ z ∈ a.distanceZones, ¬ z.IsUnbounded

/-- A plan is refused for its first zone without bounds. -/
theorem normalize_eq_error_iff {a : Authored} {e : UnboundedZone} :
    a.normalize = .error e ↔ a.IsRefused e := by
  have hrefused : a.normalize = .error e ↔
      normalizeZones .distance 0 a.distanceZones = .error e ∨
        (¬ ∃ e, normalizeZones .distance 0 a.distanceZones = .error e) ∧
          normalizeZones .insanity 0 a.insanityZones = .error e := by
    rw [normalize]
    cases normalizeZones .distance 0 a.distanceZones <;>
      cases normalizeZones .insanity 0 a.insanityZones <;>
        simp [bind, Except.bind, pure, Except.pure]
  rw [hrefused, exists_normalizeZones_eq_error_iff, normalizeZones_eq_error_iff,
    normalizeZones_eq_error_iff]
  simp only [Nat.zero_add]
  constructor
  · rintro (⟨i, hi, rfl⟩ | ⟨hdistance, i, hi, rfl⟩)
    · refine ⟨hi, fun haxis => ?_⟩
      cases haxis
    · exact ⟨hi, fun _ z hz hunbounded => hdistance ⟨z, hz, hunbounded⟩⟩
  · obtain ⟨axis, i⟩ := e
    rintro ⟨hfirst, hbefore⟩
    cases axis with
    | distance => exact .inl ⟨i, hfirst, rfl⟩
    | insanity =>
      have hdistance : ¬ ∃ z ∈ a.distanceZones, z.IsUnbounded := by
        rintro ⟨z, hz, hunbounded⟩
        exact hbefore rfl z hz hunbounded
      exact .inr ⟨hdistance, i, hfirst, rfl⟩

/-! ## Zones that are finished -/

/-- What a finished zone is, beside the zone as written. -/
structure Finishes (axis : Axis) (z : Zone) (zone : ZonePack.Zone) : Prop where
  axis_eq : zone.axis = axis
  min_eq : zone.bounds.min? = z.min
  max_eq : zone.bounds.max? = z.max
  id_eq : zone.effect.id = z.effect.id
  amplifier_eq : zone.effect.amplifier.toInt =
    z.effect.level.elim 0 fun level => max (level.toInt - 1) (-2 ^ 31)
  periodic_iff : ∀ period pulse, zone.effect.mode = .periodic period pulse ↔
    z.effect.mode = some (.periodic period pulse)

/-- One less than a level is exact but for the least one. -/
theorem toInt_amplifierOfLevel (level : Int32) :
    (amplifierOfLevel level).toInt = max (level.toInt - 1) (-2 ^ 31) := by
  unfold amplifierOfLevel
  split
  · next hleast =>
    rw [hleast]
    rfl
  · next hleast =>
    have hne : level.toInt ≠ -2 ^ 31 := fun h => hleast (Int32.toInt_inj.1 h)
    have hge := Int32.le_toInt level
    have hlt := Int32.toInt_lt level
    have hone : (1 : Int32).toInt = 1 := rfl
    rw [Int32.toInt_sub, hone, Int.bmod_eq_of_le (by omega) (by omega)]
    omega

/-- The amplifier, where a level may be left out. -/
theorem Effect.toInt_amplifier_normalize (e : Effect) : e.normalize.amplifier.toInt =
    e.level.elim 0 fun level => max (level.toInt - 1) (-2 ^ 31) := by
  rw [normalize]
  cases e.level with
  | none => rfl
  | some level => exact toInt_amplifierOfLevel level

/-- Two ways to keep an effect up are one if both are loops of the same kind, or neither
is a loop. -/
theorem mode_eq_iff {m n : EffectMode} :
    m = n ↔ ∀ period pulse, m = .periodic period pulse ↔ n = .periodic period pulse := by
  constructor
  · rintro rfl period pulse
    rfl
  · intro h
    cases n with
    | periodic period pulse => exact (h period pulse).2 rfl
    | constant =>
      cases m with
      | constant => rfl
      | periodic period pulse => exact absurd ((h period pulse).1 rfl) nofun

/-- A zone is finished field by field. -/
theorem Zone.normalize?_eq_some_iff {axis : Axis} {z : Zone} {zone : ZonePack.Zone} :
    z.normalize? axis = some zone ↔ Finishes axis z zone := by
  have hmode (period pulse : UInt32) : z.effect.normalize.mode = .periodic period pulse ↔
      z.effect.mode = some (.periodic period pulse) := by
    rw [Effect.normalize]
    cases z.effect.mode <;> simp
  rw [normalize?, Option.map_eq_some_iff]
  constructor
  · rintro ⟨bounds, hbounds, rfl⟩
    obtain ⟨hmin, hmax⟩ := Bounds.ofSides?_eq_some_iff.1 hbounds
    exact ⟨rfl, hmin, hmax, rfl, z.effect.toInt_amplifier_normalize, hmode⟩
  · obtain ⟨zoneAxis, bounds, id, amplifier, mode⟩ := zone
    rintro ⟨rfl, hmin, hmax, rfl, hamplifier, hperiodic⟩
    refine ⟨bounds, Bounds.ofSides?_eq_some_iff.2 ⟨hmin, hmax⟩, ?_⟩
    have hamplifier : z.effect.normalize.amplifier = amplifier :=
      Int32.toInt_inj.1 (z.effect.toInt_amplifier_normalize.trans hamplifier.symm)
    have hmode : z.effect.normalize.mode = mode :=
      mode_eq_iff.2 fun period pulse => (hmode period pulse).trans (hperiodic period pulse).symm
    rw [← hamplifier, ← hmode]
    rfl

/-- So is a list of zones, one by one. -/
theorem normalizeZones_eq_ok_iff_forall₂ {axis : Axis} {start : Nat} {zones : List Zone}
    {finished : List ZonePack.Zone} : normalizeZones axis start zones = .ok finished ↔
      List.Forall₂ (Finishes axis) zones finished := by
  rw [normalizeZones_eq_ok_iff, ← List.forall₂_eq_eq_eq, List.forall₂_map_left_iff,
    List.forall₂_map_right_iff]
  simp only [Zone.normalize?_eq_some_iff]

/-! ## Steps that are sorted -/

/-- Whether a list is what stable sorting by distance makes of some steps. -/
structure IsStableSort (sorted steps : List GainStep) : Prop where
  perm : sorted.Perm steps
  ascending : sorted.Pairwise (·.distance ≤ ·.distance)
  /-- The steps at one distance stand in the order they were written in. -/
  stable : ∀ d, sorted.filter (·.distance = d) = steps.filter (·.distance = d)

/-- Sorting keeps the order of the steps at one distance. -/
theorem filter_sortSteps (steps : List GainStep) (d : Int64) :
    (sortSteps steps).filter (·.distance = d) = steps.filter (·.distance = d) := by
  have hascending : (steps.filter (·.distance = d)).Pairwise
      fun a b => decide (a.distance ≤ b.distance) = true := by
    refine List.pairwise_of_forall_mem_list fun a ha b hb => ?_
    rw [List.mem_filter, decide_eq_true_eq] at ha hb
    rw [decide_eq_true_eq, ha.2, hb.2]
    exact Int64.le_refl d
  have hsublist : (steps.filter (·.distance = d)).Sublist
      ((sortSteps steps).filter (·.distance = d)) := by
    have h := (List.sublist_mergeSort distance_le_trans distance_le_total hascending
      List.filter_sublist).filter fun step => decide (step.distance = d)
    rwa [List.filter_filter, funext fun step => Bool.and_self _] at h
  exact (hsublist.eq_of_length ((perm_sortSteps steps).filter _).length_eq.symm).symm

/-- The first step of an ascending list is at the least distance. -/
theorem distance_le_of_mem {s o : GainStep} {steps : List GainStep}
    (hsteps : (s :: steps).Pairwise (·.distance ≤ ·.distance)) (ho : o ∈ s :: steps) :
    s.distance ≤ o.distance := by
  obtain rfl | ho := List.mem_cons.1 ho
  · exact Int64.le_refl _
  · exact List.rel_of_pairwise_cons hsteps ho

/-- Lists with the same steps at each distance have the same steps. -/
theorem mem_iff_of_filter_eq {steps others : List GainStep}
    (h : ∀ d, steps.filter (·.distance = d) = others.filter (·.distance = d)) (s : GainStep) :
    s ∈ steps ↔ s ∈ others := by
  simpa [List.mem_filter] using congrArg (s ∈ ·) (h s.distance)

/-- Ascending lists are equal if they have the same steps at each distance. -/
theorem eq_of_filter_eq {steps others : List GainStep}
    (hsteps : steps.Pairwise (·.distance ≤ ·.distance))
    (hothers : others.Pairwise (·.distance ≤ ·.distance))
    (h : ∀ d, steps.filter (·.distance = d) = others.filter (·.distance = d)) :
    steps = others := by
  induction steps generalizing others with
  | nil =>
    refine (List.eq_nil_iff_forall_not_mem.2 fun s hs => ?_).symm
    exact List.not_mem_nil ((mem_iff_of_filter_eq h s).2 hs)
  | cons s steps ih =>
    have hmem := mem_iff_of_filter_eq h
    cases others with
    | nil => exact absurd ((hmem s).1 List.mem_cons_self) List.not_mem_nil
    | cons o others =>
      -- each of the first steps is in the other list, so they are at one distance
      have hdistance : s.distance = o.distance :=
        Int64.le_antisymm (distance_le_of_mem hsteps ((hmem o).2 List.mem_cons_self))
          (distance_le_of_mem hothers ((hmem s).1 List.mem_cons_self))
      have hfirst := h s.distance
      rw [List.filter_cons_of_pos (by simp), List.filter_cons_of_pos (by simp [hdistance]),
        List.cons.injEq] at hfirst
      obtain ⟨rfl, -⟩ := hfirst
      have hrest (d : Int64) :
          steps.filter (·.distance = d) = others.filter (·.distance = d) := by
        have hd := h d
        rw [List.filter_cons, List.filter_cons] at hd
        split at hd
        · exact (List.cons.inj hd).2
        · exact hd
      rw [ih hsteps.of_cons hothers.of_cons hrest]

/-- Nothing else sorts as `sortSteps` does. -/
theorem sortSteps_eq_iff {steps sorted : List GainStep} :
    sorted = sortSteps steps ↔ IsStableSort sorted steps := by
  constructor
  · rintro rfl
    exact ⟨perm_sortSteps steps, pairwise_sortSteps steps, filter_sortSteps steps⟩
  · rintro ⟨-, hascending, hstable⟩
    exact eq_of_filter_eq hascending (pairwise_sortSteps steps) fun d =>
      (hstable d).trans (filter_sortSteps steps d).symm

/-! ## Plans -/

/-- A plan is refused exactly if some zone has neither bound, for the first such zone, the
distance axis coming first.  Otherwise it is finished, exactly to this: its steps sorted
stably, and each list of zones in its length and order, zone by zone. -/
theorem normalize_exact (a : Authored) :
    ((∃ e, a.normalize = .error e) ↔ ∃ z ∈ a.distanceZones ++ a.insanityZones, z.IsUnbounded) ∧
    (∀ e, a.normalize = .error e ↔ a.IsRefused e) ∧
    ∀ c, a.normalize = .ok c ↔
      IsStableSort c.gainSteps a.gainSteps ∧
      ∀ axis, List.Forall₂ (Finishes axis) (a.zonesOn axis) (c.zonesOn axis) := by
  refine ⟨exists_normalize_eq_error_iff, fun e => normalize_eq_error_iff, fun c => ?_⟩
  rw [normalize_eq_ok_iff, sortSteps_eq_iff]
  simp only [normalizeZones_eq_ok_iff_forall₂]

end Authored

end ZonePack
