import ZonePack.Command.Scores

/-!
# ZonePack.Proofs.Membership

What membership predicates decide, in exact integers.  A player's `Scores.radius`
on an axis is how far from zero the player is there; on the distance axis that
is the larger of the two offsets, so a radius bounds a square.

* `Condition.holdsBy_inside_iff` and `Condition.holdsBy_outside_iff` — being inside
  a radius is being at most that far from zero, and being outside is being farther;
* `Predicate.holds_ofBounds_iff` — an extent is left open at its start and
  closed at its reach.

The lower end of a range is not the exact opposite of its upper one where that has none,
and `Predicate.ofBounds_decides_radius` says that this makes no difference.  So what
lies in a range is a parameter of `HoldsBy`.
-/

namespace ZonePack

/-! ## The radius of a player -/

namespace Scores

/-- How far from zero a player is on an axis. -/
def radius (s : Scores) : Axis → Int
  | .distance => max (s Objective.playerDx).natAbs (s Objective.playerDz).natAbs
  | .insanity => (s Objective.insanity).natAbs

/-- No player is nearer to zero than zero. -/
theorem radius_nonneg (s : Scores) (axis : Axis) : 0 ≤ s.radius axis := by
  cases axis <;> simp only [radius] <;> omega

/-- Insanity is not an offset, so setting it moves nobody. -/
@[simp] theorem radius_distance_set_insanity (s : Scores) (value : Int) :
    (s.set Objective.insanity value).radius .distance = s.radius .distance := by
  have hx : Objective.playerDx ≠ Objective.insanity := by decide
  have hz : Objective.playerDz ≠ Objective.insanity := by decide
  simp only [radius, set_of_ne hx, set_of_ne hz]

end Scores

/-! ## Ranges -/

namespace ScoreRange

/-- The opposite number is exact but for the least number. -/
theorem toInt_opposite (n : Int64) :
    (opposite n).toInt = if n = Int64.minValue then Int64.maxValue.toInt else -n.toInt := by
  unfold opposite
  split
  · rfl
  · next hn =>
    have hlt : n.toInt ≠ -2 ^ 63 := fun h => hn (Int64.toInt_inj.1 h)
    have hge := Int64.le_toInt n
    have hle := Int64.toInt_lt n
    rw [Int64.toInt_neg, Int.bmod_eq_of_le (by omega) (by omega)]

/-- The range around zero is about the size of a score.  The least number has no
opposite, but its range is empty all the same. -/
theorem contains_symmetric_iff (radius : Int64) (score : Int) :
    (symmetric radius).Contains score ↔ (score.natAbs : Int) ≤ radius.toInt := by
  simp only [Contains, symmetric, toInt_opposite]
  split
  · next hmin =>
    have hleast : radius.toInt = -2 ^ 63 := by rw [hmin]; rfl
    have hgreatest : Int64.maxValue.toInt = 2 ^ 63 - 1 := rfl
    omega
  · omega

/-- Whether a score lies in the range that goes from the exact opposite of its upper end
to this end. -/
def Spans (r : ScoreRange) (score : Int) : Prop :=
  -r.max.toInt ≤ score ∧ score ≤ r.max.toInt

theorem spans_symmetric_iff (radius : Int64) (score : Int) :
    (symmetric radius).Spans score ↔ (score.natAbs : Int) ≤ radius.toInt := by
  simp only [Spans, symmetric]
  omega

end ScoreRange

/-! ## Conditions -/

namespace Condition

/-- Whether the condition holds if `contains` says which scores lie in a range. -/
def HoldsBy (contains : ScoreRange → Int → Prop) (score : String → Int) : Condition → Prop
  | scores ranges => ∀ r ∈ ranges, contains r.2 (score r.1)
  | inverted term => ¬ term.HoldsBy contains score

theorem holdsBy_contains_iff (c : Condition) (s : Scores) :
    c.HoldsBy ScoreRange.Contains s ↔ c.Holds s := by
  induction c with
  | scores ranges => exact Iff.rfl
  | inverted term ih => exact not_congr ih

variable {contains : ScoreRange → Int → Prop}
  (hcontains : ∀ radius score,
    contains (.symmetric radius) score ↔ (score.natAbs : Int) ≤ radius.toInt)
include hcontains

/-- Being inside a radius is being at most that far from zero. -/
theorem holdsBy_inside_iff (axis : Axis) (radius : Int64) (s : Scores) :
    (inside axis radius).HoldsBy contains s ↔ s.radius axis ≤ radius.toInt := by
  cases axis with
  | distance =>
    simp only [inside, Axis.objectives, HoldsBy, List.map_cons, List.map_nil,
      List.forall_mem_cons, List.not_mem_nil, false_implies, implies_true, and_true, hcontains,
      Scores.radius]
    omega
  | insanity =>
    simp only [inside, Axis.objectives, HoldsBy, List.map_cons, List.map_nil,
      List.forall_mem_cons, List.not_mem_nil, false_implies, implies_true, and_true, hcontains,
      Scores.radius]

/-- Being outside a radius is being farther from zero than that. -/
theorem holdsBy_outside_iff (axis : Axis) (radius : Int64) (s : Scores) :
    (outside axis radius).HoldsBy contains s ↔ radius.toInt < s.radius axis := by
  rw [outside, HoldsBy, holdsBy_inside_iff hcontains, Int.not_le]

end Condition

/-! ## Extents -/

namespace Predicate

/-- Whether the predicate holds if `contains` says which scores lie in a range. -/
def HoldsBy (contains : ScoreRange → Int → Prop) (score : String → Int) : Predicate → Prop
  | single condition => condition.HoldsBy contains score
  | all conditions => ∀ c ∈ conditions, c.HoldsBy contains score

theorem holdsBy_contains_iff (p : Predicate) (s : Scores) :
    p.HoldsBy ScoreRange.Contains s ↔ p.Holds s := by
  cases p with
  | single condition => exact condition.holdsBy_contains_iff s
  | all conditions => exact forall₂_congr fun c _ => c.holdsBy_contains_iff s

/-- Membership in an extent: farther from zero than its start, as far as there is
one, and at most as far as its reach, as far as there is one. -/
theorem holdsBy_ofBounds_iff {contains : ScoreRange → Int → Prop}
    (hcontains : ∀ radius score,
      contains (.symmetric radius) score ↔ (score.natAbs : Int) ≤ radius.toInt)
    (axis : Axis) (b : Bounds) (s : Scores) :
    (ofBounds axis b).HoldsBy contains s ↔
      (∀ min ∈ b.min?, min.toInt < s.radius axis) ∧
        ∀ max ∈ b.max?, s.radius axis ≤ max.toInt := by
  have hinside := Condition.holdsBy_inside_iff hcontains
  have houtside := Condition.holdsBy_outside_iff hcontains
  cases b with
  | below max => simp [ofBounds, HoldsBy, Bounds.min?, Bounds.max?, hinside]
  | above min => simp [ofBounds, HoldsBy, Bounds.min?, Bounds.max?, houtside]
  | between min max =>
    simp [ofBounds, HoldsBy, Bounds.min?, Bounds.max?, hinside, houtside, and_comm]

theorem holds_ofBounds_iff (axis : Axis) (b : Bounds) (s : Scores) :
    (ofBounds axis b).Holds s ↔
      (∀ min ∈ b.min?, min.toInt < s.radius axis) ∧
        ∀ max ∈ b.max?, s.radius axis ≤ max.toInt := by
  rw [← holdsBy_contains_iff]
  exact holdsBy_ofBounds_iff ScoreRange.contains_symmetric_iff axis b s

/-- A predicate is about the radius of a player, on every axis and for every extent, and
would be about the same if the ends of its ranges were exact opposites. -/
theorem ofBounds_decides_radius (axis : Axis) (b : Bounds) (s : Scores) :
    ((ofBounds axis b).Holds s ↔
      (∀ min ∈ b.min?, min.toInt < s.radius axis) ∧
        ∀ max ∈ b.max?, s.radius axis ≤ max.toInt) ∧
    ((ofBounds axis b).HoldsBy ScoreRange.Spans s ↔ (ofBounds axis b).Holds s) := by
  have hholds := holds_ofBounds_iff axis b s
  exact ⟨hholds, (holdsBy_ofBounds_iff ScoreRange.spans_symmetric_iff axis b s).trans hholds.symm⟩

end Predicate

end ZonePack
