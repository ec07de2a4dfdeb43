/-!
# ZonePack.Bounds

The extent of a zone: a radius it reaches out to, a radius it starts at, or
both.  A zone with neither has no extent, so `Bounds` has no such value and
`Bounds.ofSides?` is where the possibility ends.
-/

namespace ZonePack

/-- The extent of a zone, with at least one side set. -/
inductive Bounds where
  /-- Within `max` of zero. -/
  | below (max : Int64)
  /-- Farther from zero than `min`. -/
  | above (min : Int64)
  /-- Within `max` of zero, but not within `min`. -/
  | between (min max : Int64)
  deriving DecidableEq, Repr

namespace Bounds

/-- The extent with the given sides; none when neither is given. -/
def ofSides? : Option Int64 → Option Int64 → Option Bounds
  | none, none => none
  | none, some max => some (below max)
  | some min, none => some (above min)
  | some min, some max => some (between min max)

/-- The radius the zone starts at, if it is set. -/
def min? : Bounds → Option Int64
  | below _ => none
  | above min | between min _ => some min

/-- The radius the zone reaches out to, if it is set. -/
def max? : Bounds → Option Int64
  | above _ => none
  | below max | between _ max => some max

/-- Sides taken off and put back on give the same extent. -/
@[simp] theorem ofSides?_min?_max? (b : Bounds) : ofSides? b.min? b.max? = some b := by
  cases b <;> rfl

/-- An extent has exactly the sides it was made from. -/
theorem ofSides?_eq_some_iff {min max : Option Int64} {b : Bounds} :
    ofSides? min max = some b ↔ b.min? = min ∧ b.max? = max := by
  constructor
  · intro h
    cases min <;> cases max <;> cases h <;> exact ⟨rfl, rfl⟩
  · rintro ⟨rfl, rfl⟩
    exact b.ofSides?_min?_max?

/-- Only two missing sides make no extent. -/
theorem ofSides?_eq_none_iff {min max : Option Int64} :
    ofSides? min max = none ↔ min = none ∧ max = none := by
  cases min <;> cases max <;> simp [ofSides?]

end Bounds

end ZonePack
