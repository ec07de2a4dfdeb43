import ZonePack.Command
import ZonePack.Predicate

/-!
# ZonePack.Command.Scores

What commands do to the scores of one player, alone in the game.  Names of
predicates are looked up in a table; a name that is not in it picks nobody.
Scores are exact integers here.
-/

namespace ZonePack

/-- The scores of a player, by objective. -/
abbrev Scores := String → Int

namespace Scores

/-- The scores with one of them replaced. -/
def set (s : Scores) (objective : String) (value : Int) : Scores :=
  fun o => if o = objective then value else s o

@[simp] theorem set_self (s : Scores) (objective : String) (value : Int) :
    s.set objective value objective = value := by
  simp [set]

theorem set_of_ne {s : Scores} {objective o : String} {value : Int} (h : o ≠ objective) :
    s.set objective value o = s o := by
  simp [set, h]

end Scores

/-- The stored predicates, by name. -/
abbrev PredicateTable := String → Option Predicate

namespace PredicateTable

/-- Whether the predicate of a name is stored and holds. -/
def Holds (table : PredicateTable) (s : Scores) (name : String) : Prop :=
  ∃ p ∈ table name, p.Holds s

instance (table : PredicateTable) (s : Scores) (name : String) :
    Decidable (table.Holds s name) :=
  match h : table name with
  | none => isFalse (by simp [Holds, h])
  | some p => decidable_of_iff (p.Holds s) (by simp [Holds, h])

end PredicateTable

namespace Selector

/-- Whether a selector picks the player. -/
def Picks (table : PredicateTable) (s : Scores) : Selector → Prop
  | everyone => True
  | executor => True
  | matching predicate => table.Holds s predicate

instance (table : PredicateTable) (s : Scores) :
    (selector : Selector) → Decidable (selector.Picks table s)
  | everyone => isTrue trivial
  | executor => isTrue trivial
  | matching predicate => inferInstanceAs (Decidable (table.Holds s predicate))

end Selector

namespace Check

/-- Whether the player passes a check. -/
def Passes (table : PredicateTable) (s : Scores) : Check → Prop
  | predicate name => table.Holds s name
  | scoreAtLeast target objective least => target.Picks table s ∧ least.toInt ≤ s objective

instance (table : PredicateTable) (s : Scores) : (c : Check) → Decidable (c.Passes table s)
  | predicate name => inferInstanceAs (Decidable (table.Holds s name))
  | scoreAtLeast target objective least =>
    inferInstanceAs (Decidable (target.Picks table s ∧ least.toInt ≤ s objective))

end Check

namespace Command

/-- The player's scores after a command.  Effects and calls leave them alone. -/
def score (table : PredicateTable) (s : Scores) : Command → Scores
  | setScore target objective value =>
    if target.Picks table s then s.set objective value.toInt else s
  | addScore target objective amount =>
    if target.Picks table s then s.set objective (s objective + amount.toInt) else s
  | execute players checks run =>
    if players.Picks table s ∧ ∀ c ∈ checks, c.Passes table s then run.score table s else s
  | giveEffect _ _ _ _ _ => s
  | call _ => s
  | schedule _ _ _ => s
  | unschedule _ => s

end Command

namespace Script

/-- The player's scores after the commands of a script, one after another. -/
def score (table : PredicateTable) (s : Scores) (script : Script) : Scores :=
  script.commands.foldl (fun s c => c.score table s) s

end Script

end ZonePack
