import ZonePack.Command
import ZonePack.Zone

/-!
# ZonePack.EffectScripts

The functions that act on players.  Constant effects are refreshed together by
one function that the game runs all the time: each refresh gives them for a
short time, so they seem to last.  A periodic effect has a loop of its own, a
function that gives the effect and schedules itself again, replacing a run that
is still to come, so a loop that is started twice still runs once.
-/

namespace ZonePack

/-- For how many seconds a constant effect is given on each refresh. -/
def constantEffectSeconds : UInt32 := 5

/-! ## The effects of zones -/

namespace Zone

/-- Gives the zone's effect to every player in it for some seconds. -/
def giveEffect (z : Zone) (seconds : UInt32) : Command :=
  .giveEffect (.matching z.name) z.effect.id seconds z.effect.amplifier true

/-- Refreshes the zone's effect as a constant one. -/
def constantEffect (z : Zone) : Command :=
  z.giveEffect constantEffectSeconds

/-- One round of the zone's effect as a periodic one: it is given for `pulse`
seconds, and the next round is due `period` seconds later. -/
def periodicEffect (z : Zone) (period pulse : UInt32) : Script :=
  ⟨[z.giveEffect pulse, .schedule (Name.functionRef z.name) period true]⟩

end Zone

/-- The loop of a zone's periodic effect. -/
structure PeriodicLoop where
  name : String
  script : Script
  deriving DecidableEq, Repr

namespace Zone

/-- The zone's refresh, if its effect is constant. -/
def refresh? (z : Zone) : Option Command :=
  match z.effect.mode with
  | .constant => some z.constantEffect
  | .periodic _ _ => none

/-- The zone's loop, if its effect is periodic. -/
def loop? (z : Zone) : Option PeriodicLoop :=
  match z.effect.mode with
  | .constant => none
  | .periodic period pulse => some ⟨z.name, z.periodicEffect period pulse⟩

end Zone

namespace Script

/-- Starts the named loops. -/
def startLoops (names : List String) : Script :=
  ⟨names.map fun name => .call (Name.functionRef name)⟩

/-- Drops every coming run of the named loops. -/
def stopLoops (names : List String) : Script :=
  ⟨names.map fun name => .unschedule (Name.functionRef name)⟩

end Script

/-- All functions that keep up the effects of a plan. -/
structure EffectScripts where
  /-- Refreshes the constant effects. -/
  constant : Script
  periodic : List PeriodicLoop
  start : Script
  stop : Script
  deriving DecidableEq, Repr

namespace EffectScripts

/-- The functions for some zones, in the order of the zones. -/
def ofZones (zones : List Zone) : EffectScripts :=
  let loops := zones.filterMap Zone.loop?
  let names := loops.map (·.name)
  { constant := ⟨zones.filterMap Zone.refresh?⟩
    periodic := loops
    start := .startLoops names
    stop := .stopLoops names }

/-- The functions for a plan: insanity zones come before distance zones. -/
def ofConfig (c : Config) : EffectScripts :=
  ofZones c.effectZones

end EffectScripts

/-! ## Insanity -/

namespace GainStep

/-- Adds the step's amount to the insanity of every player in the step's band. -/
def command (s : GainStep) : Command :=
  .execute .everyone [.predicate (Name.gainBand s.distance)]
    (.addScore .executor Objective.insanity s.amount)

end GainStep

namespace Script

/-- Resets the insanity of every player who is under cover in the innermost band. -/
def coverReset : Command :=
  .execute .everyone
    [.predicate (Name.gainBand 0), .scoreAtLeast .executor Objective.underCover 1]
    (.setScore .executor Objective.insanity 0)

/-- One update of insanity: the reset under cover, then each step's gain.  The
commands do not exclude each other: a player who has been reset may still gain. -/
def updateInsanity (steps : List GainStep) : Script :=
  ⟨coverReset :: steps.map GainStep.command⟩

end Script

end ZonePack
