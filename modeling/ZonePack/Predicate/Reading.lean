import ZonePack.Predicate

/-!
# ZonePack.Predicate.Reading

Predicate files read back: a condition is an object with a tag, scores are an
object of ranges, and a list stands for all of its conditions.  Conditions may
be inverted to any depth, so a file may be nested as deep as it is long.
-/

namespace ZonePack

open Json (Value)

namespace ScoreRange

/-- The range that a value describes. -/
def ofJson? : Value → Option ScoreRange
  | .object [
      ("min", .scalar (.number (.integer min))),
      ("max", .scalar (.number (.integer max)))] => do
    return ⟨← Json.int64? min, ← Json.int64? max⟩
  | _ => none

@[simp] theorem ofJson?_toJson (r : ScoreRange) : ofJson? r.toJson = some r := by
  simp [ofJson?, toJson, Value.integer]

end ScoreRange

namespace Condition

/-- The ranges that the entries of an object describe. -/
def rangesOfJson? (entries : List (String × Value)) : Option (List (String × ScoreRange)) :=
  entries.mapM fun e => (ScoreRange.ofJson? e.2).map (e.1, ·)

/-- The condition that a value describes. -/
def ofJson? : Value → Option Condition
  | .object [
      ("condition", .scalar (.string "minecraft:entity_scores")),
      ("entity", .scalar (.string "this")),
      ("scores", .object entries)] => (rangesOfJson? entries).map scores
  | .object [
      ("condition", .scalar (.string "minecraft:inverted")),
      ("term", term)] => (ofJson? term).map inverted
  | _ => none

end Condition

namespace Predicate

/-- The predicate that a value describes. -/
def ofJson? : Value → Option Predicate
  | .list items => (items.mapM Condition.ofJson?).map all
  | v => (Condition.ofJson? v).map single

/-- The predicate that a file describes. -/
def ofText? (text : String) : Option Predicate :=
  match (Value.reader text.length).document text with
  | .error _ => none
  | .ok v => ofJson? v

end Predicate

end ZonePack
