import ZonePack.Zone

/-!
# ZonePack.Authored

A zone plan as its author wrote it, with everything that may be left out, and
the finished plan it stands for.  `Authored.normalize` sorts the gain steps,
fills in the defaults of effects, and refuses a zone without bounds.
-/

namespace ZonePack

namespace Authored

/-- An effect as written. -/
structure Effect where
  id : String
  /-- The strength as shown in game, where the weakest is one. -/
  level : Option Int32
  mode : Option EffectMode
  deriving DecidableEq, Repr

/-- A zone as written; the list it stands in says which axis it is on. -/
structure Zone where
  min : Option Int64
  max : Option Int64
  effect : Effect
  deriving DecidableEq, Repr

end Authored

/-- A zone plan as written. -/
structure Authored where
  gainSteps : List GainStep
  distanceZones : List Authored.Zone
  insanityZones : List Authored.Zone
  deriving DecidableEq, Repr

/-- A zone with neither side of its bounds: its list and its place in it. -/
structure UnboundedZone where
  axis : Axis
  index : Nat
  deriving DecidableEq, Repr

namespace UnboundedZone

def message (z : UnboundedZone) : String :=
  z.axis.label ++ " zone #" ++ z.index.repr ++ " sets neither a minimum nor a maximum bound"

end UnboundedZone

namespace Authored

/-- One less than a level; the least level stays what it is. -/
def amplifierOfLevel (level : Int32) : Int32 :=
  if level = Int32.minValue then level else level - 1

namespace Effect

/-- The effect with its defaults: amplifier zero, and constant. -/
def normalize (e : Effect) : ZonePack.Effect where
  id := e.id
  amplifier := e.level.elim 0 amplifierOfLevel
  mode := e.mode.getD .constant

end Effect

namespace Zone

/-- The zone on its axis, if it has bounds. -/
def normalize? (axis : Axis) (z : Zone) : Option ZonePack.Zone :=
  (Bounds.ofSides? z.min z.max).map fun bounds => ⟨axis, bounds, z.effect.normalize⟩

end Zone

/-- The zones of one list; the first of them without bounds is refused.
`index` is the place of the list's first zone. -/
def normalizeZones (axis : Axis) (index : Nat) :
    List Zone → Except UnboundedZone (List ZonePack.Zone)
  | [] => .ok []
  | z :: zs =>
    match z.normalize? axis with
    | none => .error ⟨axis, index⟩
    | some zone => (normalizeZones axis (index + 1) zs).map (zone :: ·)

/-- The gain steps from the nearest to the farthest; steps at one distance stay
in the order they were written in. -/
def sortSteps (steps : List GainStep) : List GainStep :=
  steps.mergeSort fun a b => decide (a.distance ≤ b.distance)

/-- The finished plan.  Of the zones without bounds, one on the distance axis is
refused before one on the insanity axis. -/
def normalize (a : Authored) : Except UnboundedZone Config := do
  let distanceZones ← normalizeZones .distance 0 a.distanceZones
  let insanityZones ← normalizeZones .insanity 0 a.insanityZones
  return ⟨sortSteps a.gainSteps, distanceZones, insanityZones⟩

end Authored

end ZonePack
