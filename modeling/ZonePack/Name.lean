import ZonePack.Axis
import ZonePack.Bounds

/-!
# ZonePack.Name

The names of generated resources.  Predicate files, effect scripts and the
commands that mention them agree on a name only because all of them take it
from here.  A missing side is written `0` (start) or `inf` (reach) in a name;
that says nothing about how the side is evaluated.
-/

namespace ZonePack

namespace Name

/-- The namespace that every generated resource lives in. -/
def space : String := "softborder"

/-- The folder of generated functions, inside the namespace's functions. -/
def scriptFolder : String := "private/gen"

/-- The name of the gain band that starts at `lower`.  Bands are contiguous, so
the next band's start says where this one ends. -/
def gainBand (lower : Int64) : String :=
  "ig_zone_" ++ toString lower

/-- The name of the zone of an axis with the given sides. -/
def zone (axis : Axis) (min max : Option Int64) : String :=
  axis.tag ++ "_zone_" ++ min.elim "0" toString ++ "_" ++ max.elim "inf" toString

/-- The name of the zone of an axis with the given extent. -/
def ofBounds (axis : Axis) (bounds : Bounds) : String :=
  zone axis bounds.min? bounds.max?

/-- How commands refer to the predicate called `name`. -/
def predicateRef (name : String) : String :=
  space ++ ":" ++ name

/-- How commands refer to the generated function called `name`. -/
def functionRef (name : String) : String :=
  space ++ ":" ++ scriptFolder ++ "/" ++ name

/-- The name of the generated function that a reference is for. -/
def ofFunctionRef? (ref : String) : Option String :=
  let lead := (functionRef "").toList
  if lead.isPrefixOf ref.toList then some (String.ofList (ref.toList.drop lead.length)) else none

@[simp] theorem ofFunctionRef?_functionRef (name : String) :
    ofFunctionRef? (functionRef name) = some name := by
  simp [ofFunctionRef?, functionRef, space, scriptFolder]

/-! ## The fixed functions -/

/-- The function that moves every player's insanity on by one step. -/
def updateInsanity : String := "update_insanity"

/-- The function that refreshes every constant effect. -/
def applyConstantEffects : String := "apply_const_effects"

/-- The function that starts every periodic loop. -/
def startPeriodicEffects : String := "start_periodic_effects"

/-- The function that stops every periodic loop. -/
def stopPeriodicEffects : String := "stop_periodic_effects"

/-- The functions that every pack has. -/
def fixedFunctions : List String :=
  [updateInsanity, applyConstantEffects, startPeriodicEffects, stopPeriodicEffects]

end Name

end ZonePack
