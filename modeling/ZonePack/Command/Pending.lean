import ZonePack.Command

/-!
# ZonePack.Command.Pending

What commands do to the runs of functions that are still to come.  `Runs` says
what a list of commands leaves: a call runs the stored function at once, and
scheduling adds a run, with or without dropping the earlier ones of the same
function.  When a run comes due (`Fires`), it is taken off before its function
is run.
-/

namespace ZonePack

/-- The runs that are still to come: the reference of a function for each of
them, as often as it will run. -/
abbrev Pending := List String

/-- The stored functions, by reference. -/
abbrev ScriptTable := String → Option Script

namespace Pending

/-- The runs with every run of a function dropped. -/
def drop (p : Pending) (function : String) : Pending :=
  p.filter (· ≠ function)

/-- The runs after a function is scheduled. -/
def schedule (p : Pending) (function : String) (replace : Bool) : Pending :=
  (if replace then p.drop function else p) ++ [function]

theorem count_drop_self (p : Pending) (function : String) :
    (p.drop function).count function = 0 := by
  simp [drop, List.count_eq_zero]

theorem count_drop_of_ne {p : Pending} {function f : String} (h : f ≠ function) :
    (p.drop function).count f = p.count f := by
  simp [drop, List.count_filter, h]

end Pending

/-- Commands, run from their first to their last, lead from some runs to come to
others.  A command may be executed as any number of players. -/
inductive Runs (table : ScriptTable) : List Command → Pending → Pending → Prop where
  | nil (p : Pending) : Runs table [] p p
  | giveEffect {targets effect seconds amplifier hideParticles cs p q} :
    Runs table cs p q →
    Runs table (.giveEffect targets effect seconds amplifier hideParticles :: cs) p q
  | setScore {target objective value cs p q} :
    Runs table cs p q → Runs table (.setScore target objective value :: cs) p q
  | addScore {target objective amount cs p q} :
    Runs table cs p q → Runs table (.addScore target objective amount :: cs) p q
  | execute {players checks run cs p q} (times : Nat) :
    Runs table (List.replicate times run ++ cs) p q →
    Runs table (.execute players checks run :: cs) p q
  | call {function script cs p q} :
    table function = some script → Runs table (script.commands ++ cs) p q →
    Runs table (.call function :: cs) p q
  | callMissing {function cs p q} :
    table function = none → Runs table cs p q → Runs table (.call function :: cs) p q
  | schedule {function delay replace cs p q} :
    Runs table cs (p.schedule function replace) q →
    Runs table (.schedule function delay replace :: cs) p q
  | unschedule {function cs p q} :
    Runs table cs (p.drop function) q → Runs table (.unschedule function :: cs) p q

/-- A run that was to come is taken off and its function, if stored, is run. -/
inductive Fires (table : ScriptTable) : String → Pending → Pending → Prop where
  | stored {function script p q} :
    function ∈ p → table function = some script →
    Runs table script.commands (p.erase function) q → Fires table function p q
  | missing {function p} :
    function ∈ p → table function = none → Fires table function p (p.erase function)

end ZonePack
