import ZonePack.Command

/-!
# ZonePack.Command.References

What commands refer to: the predicates in their selectors and checks, by name,
and the functions that they call or schedule, by full reference.
-/

namespace ZonePack

namespace Selector

/-- The predicates that a selector refers to. -/
def predicates : Selector → List String
  | everyone => []
  | executor => []
  | matching predicate => [predicate]

end Selector

namespace Check

/-- The predicates that a check refers to. -/
def predicates : Check → List String
  | predicate name => [name]
  | scoreAtLeast target _ _ => target.predicates

end Check

namespace Command

/-- The predicates that a command refers to. -/
def predicates : Command → List String
  | giveEffect targets _ _ _ _ => targets.predicates
  | setScore target _ _ => target.predicates
  | addScore target _ _ => target.predicates
  | execute players checks run =>
    players.predicates ++ checks.flatMap Check.predicates ++ run.predicates
  | call _ => []
  | schedule _ _ _ => []
  | unschedule _ => []

/-- The functions that a command refers to. -/
def functions : Command → List String
  | giveEffect _ _ _ _ _ => []
  | setScore _ _ _ => []
  | addScore _ _ _ => []
  | execute _ _ run => run.functions
  | call function => [function]
  | schedule function _ _ => [function]
  | unschedule function => [function]

end Command

namespace Script

/-- The predicates that a script's commands refer to. -/
def predicates (s : Script) : List String := s.commands.flatMap Command.predicates

/-- The functions that a script's commands refer to. -/
def functions (s : Script) : List String := s.commands.flatMap Command.functions

end Script

end ZonePack
