import ZonePack.Name

/-!
# ZonePack.Command

The commands that generated functions are made of, and their one-line texts.
Commands are put together as values; text appears only here.
-/

namespace ZonePack

/-! ## Selectors -/

/-- Which players a command is about. -/
inductive Selector where
  /-- Every player. -/
  | everyone
  /-- The player that the command is run as. -/
  | executor
  /-- Every player for whom the named predicate holds. -/
  | matching (predicate : String)
  deriving DecidableEq, Repr

namespace Selector

def text : Selector → String
  | everyone => "@a"
  | executor => "@s"
  | matching predicate => "@a[predicate=" ++ Name.predicateRef predicate ++ "]"

end Selector

/-! ## Checks -/

/-- What has to hold for a command to be run. -/
inductive Check where
  /-- The named predicate holds for the executor. -/
  | predicate (name : String)
  /-- A score of the target is at least some number. -/
  | scoreAtLeast (target : Selector) (objective : String) (least : Int64)
  deriving DecidableEq, Repr

namespace Check

def text : Check → String
  | predicate name => "if predicate " ++ Name.predicateRef name
  | scoreAtLeast target objective least =>
    "if score " ++ target.text ++ " " ++ objective ++ " matches " ++ toString least ++ ".."

end Check

/-! ## Commands -/

/-- A command.  Functions are named by their full references. -/
inductive Command where
  /-- Gives an effect for some seconds. -/
  | giveEffect (targets : Selector) (effect : String) (seconds : UInt32) (amplifier : Int32)
      (hideParticles : Bool)
  | setScore (target : Selector) (objective : String) (value : Int64)
  | addScore (target : Selector) (objective : String) (amount : Int64)
  /-- Runs a command as each selected player who passes every check. -/
  | execute (players : Selector) (checks : List Check) (run : Command)
  /-- Runs a function at once. -/
  | call (function : String)
  /-- Runs a function after some seconds, either instead of its runs that are
  still to come or besides them. -/
  | schedule (function : String) (delay : UInt32) (replace : Bool)
  /-- Drops the runs of a function that are still to come. -/
  | unschedule (function : String)
  deriving DecidableEq, Repr

namespace Command

def text : Command → String
  | giveEffect targets effect seconds amplifier hideParticles =>
    "effect give " ++ targets.text ++ " " ++ effect ++ " " ++ toString seconds ++ " " ++
      toString amplifier ++ " " ++ toString hideParticles
  | setScore target objective value =>
    "scoreboard players set " ++ target.text ++ " " ++ objective ++ " " ++ toString value
  | addScore target objective amount =>
    "scoreboard players add " ++ target.text ++ " " ++ objective ++ " " ++ toString amount
  | execute players checks run =>
    "execute as " ++ players.text ++ String.join (checks.map fun c => " " ++ c.text) ++
      " run " ++ run.text
  | call function => "function " ++ function
  | schedule function delay replace =>
    "schedule function " ++ function ++ " " ++ toString delay ++ "s" ++
      (if replace then " replace" else " append")
  | unschedule function => "schedule clear " ++ function

end Command

/-! ## Scripts -/

/-- The commands of one function, in the order in which they run. -/
structure Script where
  commands : List Command
  deriving DecidableEq, Repr

namespace Script

def empty : Script := ⟨[]⟩

/-- The script with one more command at its end. -/
def push (s : Script) (c : Command) : Script := ⟨s.commands ++ [c]⟩

def length (s : Script) : Nat := s.commands.length

def isEmpty (s : Script) : Bool := s.commands.isEmpty

/-- The script's file: each command on a line of its own. -/
def text (s : Script) : String :=
  String.join (s.commands.map fun c => c.text ++ "\n")

@[simp] theorem commands_push (s : Script) (c : Command) :
    (s.push c).commands = s.commands ++ [c] := rfl

end Script

end ZonePack
