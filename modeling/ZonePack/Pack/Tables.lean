import ZonePack.Command.Pending
import ZonePack.Command.References
import ZonePack.Command.Scores
import ZonePack.Pack

/-!
# ZonePack.Pack.Tables

What the game finds in a pack: the predicate of a name and the function of a
reference.  Both are what the pack stores last under the path that belongs to
the name.
-/

namespace ZonePack

namespace Pack

/-- The predicate stored under a name. -/
def predicates (pack : Pack) : PredicateTable := fun name =>
  match pack.get? (Layout.predicateFile name) with
  | some ⟨_, .predicate p⟩ => some p
  | _ => none

/-- The function stored under a reference. -/
def scripts (pack : Pack) : ScriptTable := fun ref => do
  let name ← Name.ofFunctionRef? ref
  match pack.get? (Layout.scriptFile name) with
  | some ⟨_, .script s⟩ => some s
  | _ => none

end Pack

/-- One thing that happens to the runs that are still to come: a fixed function
is run from outside, or a run comes due. -/
inductive PendingStep (pack : Pack) : Pending → Pending → Prop where
  | runFixed {name script p q} :
    name ∈ Name.fixedFunctions → pack.scripts (Name.functionRef name) = some script →
    Runs pack.scripts script.commands p q → PendingStep pack p q
  | fire {function p q} : Fires pack.scripts function p q → PendingStep pack p q

end ZonePack
