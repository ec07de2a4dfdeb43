import ZonePack.Axis
import ZonePack.Bounds
import ZonePack.Json.Value

/-!
# ZonePack.Predicate

Membership predicates.  A predicate asks whether a player's scores lie in closed
ranges, whether a condition fails, or whether all of several conditions hold:

```
below max         inside max
above min         not inside min
between min max   inside max, and not inside min
```

`inside radius` puts every objective of the axis between `-radius` and `radius`,
so on the distance axis it is a square around the origin.

`Predicate.Holds` says what a predicate means for given scores, and
`Predicate.text` is its file.
-/

namespace ZonePack

/-! ## Conditions -/

/-- A closed range of scores. -/
structure ScoreRange where
  min : Int64
  max : Int64
  deriving DecidableEq, Repr

namespace ScoreRange

/-- The opposite number; the least number, which has none, goes to the greatest. -/
def opposite (n : Int64) : Int64 :=
  if n = Int64.minValue then Int64.maxValue else -n

/-- The range from `-radius` to `radius`. -/
def symmetric (radius : Int64) : ScoreRange := ⟨opposite radius, radius⟩

/-- Whether a score lies in the range. -/
def Contains (r : ScoreRange) (score : Int) : Prop :=
  r.min.toInt ≤ score ∧ score ≤ r.max.toInt

instance (r : ScoreRange) (score : Int) : Decidable (r.Contains score) :=
  inferInstanceAs (Decidable (_ ∧ _))

end ScoreRange

/-- A condition on the scores of a player. -/
inductive Condition where
  /-- Every listed score lies in its range. -/
  | scores (ranges : List (String × ScoreRange))
  /-- The other condition does not hold. -/
  | inverted (term : Condition)
  deriving DecidableEq, Repr

namespace Condition

/-- Within a radius of zero on an axis. -/
def inside (axis : Axis) (radius : Int64) : Condition :=
  scores (axis.objectives.map (·, ScoreRange.symmetric radius))

/-- Farther from zero than a radius. -/
def outside (axis : Axis) (radius : Int64) : Condition :=
  (inside axis radius).inverted

/-- The condition inverted `n` times over. -/
def invertTimes : Nat → Condition → Condition
  | 0, c => c
  | n + 1, c => (invertTimes n c).inverted

/-- Whether the condition holds for a player with the given scores. -/
def Holds (score : String → Int) : Condition → Prop
  | scores ranges => ∀ r ∈ ranges, r.2.Contains (score r.1)
  | inverted term => ¬ term.Holds score

instance decidableHolds (score : String → Int) : (c : Condition) → Decidable (c.Holds score)
  | scores ranges => inferInstanceAs (Decidable (∀ r ∈ ranges, r.2.Contains (score r.1)))
  | inverted term =>
    have := decidableHolds score term
    inferInstanceAs (Decidable (¬ term.Holds score))

end Condition

/-! ## Predicates -/

/-- What one predicate file holds: a condition, or a list of them. -/
inductive Predicate where
  | single (condition : Condition)
  | all (conditions : List Condition)
  deriving DecidableEq, Repr

namespace Predicate

/-- Membership in an extent of an axis. -/
def ofBounds (axis : Axis) : Bounds → Predicate
  | .below max => single (.inside axis max)
  | .above min => single (.outside axis min)
  | .between min max => all [.inside axis max, .outside axis min]

/-- Whether the predicate holds for a player with the given scores. -/
def Holds (score : String → Int) : Predicate → Prop
  | single condition => condition.Holds score
  | all conditions => ∀ c ∈ conditions, c.Holds score

instance (score : String → Int) : (p : Predicate) → Decidable (p.Holds score)
  | single condition => inferInstanceAs (Decidable (condition.Holds score))
  | all conditions => inferInstanceAs (Decidable (∀ c ∈ conditions, c.Holds score))

end Predicate

/-! ## Files -/

open Json (Value)

namespace ScoreRange

def toJson (r : ScoreRange) : Value :=
  .object [("min", .integer r.min.toInt), ("max", .integer r.max.toInt)]

end ScoreRange

namespace Condition

def toJson : Condition → Value
  | scores ranges => .object [
      ("condition", .string "minecraft:entity_scores"),
      ("entity", .string "this"),
      ("scores", .object (ranges.map fun r => (r.1, r.2.toJson)))]
  | inverted term => .object [
      ("condition", .string "minecraft:inverted"),
      ("term", term.toJson)]

end Condition

namespace Predicate

def toJson : Predicate → Value
  | single condition => condition.toJson
  | all conditions => .list (conditions.map Condition.toJson)

/-- The predicate's file. -/
def text (p : Predicate) : String := p.toJson.pretty

end Predicate

end ZonePack
