import ZonePack.Name

/-!
# ZonePack.Zone

A zone plan in its finished form: every zone has an extent and an effect with
all its defaults filled in, so nothing that is generated from it has to ask
whether a value was given.
-/

namespace ZonePack

/-! ## Effects -/

/-- How an effect is kept up while a player is in its zone. -/
inductive EffectMode where
  /-- Given anew each time the constant effects are refreshed. -/
  | constant
  /-- Given for `pulse` seconds, once every `period` seconds. -/
  | periodic (period pulse : UInt32)
  deriving DecidableEq, Repr

namespace EffectMode

/-- Whether the effect runs in a loop of its own. -/
def isPeriodic : EffectMode → Bool
  | constant => false
  | periodic _ _ => true

end EffectMode

/-- An effect on the players of a zone. -/
structure Effect where
  /-- The effect's identifier, passed on as it was written. -/
  id : String
  /-- The strength that the game's command takes: one less than the level shown in game. -/
  amplifier : Int32
  mode : EffectMode
  deriving DecidableEq, Repr

/-! ## Zones -/

/-- A region of one axis and the effect on the players in it. -/
structure Zone where
  axis : Axis
  bounds : Bounds
  effect : Effect
  deriving DecidableEq, Repr

namespace Zone

/-- The name that the zone's predicate and its effect loop share. -/
def name (z : Zone) : String :=
  Name.ofBounds z.axis z.bounds

end Zone

/-! ## The plan -/

/-- From `distance` on, insanity grows by `amount` per update. -/
structure GainStep where
  distance : Int64
  amount : Int64
  deriving DecidableEq, Repr

/-- A whole zone plan. -/
structure Config where
  /-- In ascending order of distance when the plan was read from a document. -/
  gainSteps : List GainStep
  distanceZones : List Zone
  insanityZones : List Zone
  deriving DecidableEq, Repr

namespace Config

/-- The zones in the order in which their predicates are generated. -/
def zones (c : Config) : List Zone :=
  c.distanceZones ++ c.insanityZones

/-- The zones in the order in which their effects are generated. -/
def effectZones (c : Config) : List Zone :=
  c.insanityZones ++ c.distanceZones

end Config

end ZonePack
