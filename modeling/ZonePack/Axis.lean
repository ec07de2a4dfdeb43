/-!
# ZonePack.Axis

The two scales a zone can be measured on, and the scoreboard objectives that
carry a player's place on them.  `distance` is how far the player stands from
the border origin, kept as two offsets; `insanity` is one accumulated score.
-/

namespace ZonePack

/-! ## Scoreboard objectives -/

namespace Objective

/-- The player's x offset from the border origin. -/
def playerDx : String := "sb_player_dx"

/-- The player's z offset from the border origin. -/
def playerDz : String := "sb_player_dz"

/-- The player's accumulated insanity. -/
def insanity : String := "sb_insanity"

/-- One or more while the player has a roof overhead. -/
def underCover : String := "sb_player_under_cover"

end Objective

/-! ## Axes -/

/-- The scale that a zone is measured on. -/
inductive Axis where
  | distance
  | insanity
  deriving DecidableEq, Repr

namespace Axis

/-- The two letters that start the names of this axis' zones. -/
def tag : Axis → String
  | distance => "dz"
  | insanity => "iz"

/-- The word for this axis in messages. -/
def label : Axis → String
  | distance => "distance"
  | insanity => "insanity"

/-- The objectives that have to lie in range for a player to be inside a
radius on this axis, in ascending order of their names. -/
def objectives : Axis → List String
  | distance => [Objective.playerDx, Objective.playerDz]
  | insanity => [Objective.insanity]

end Axis

end ZonePack
