import ZonePack.Authored
import ZonePack.Json.Record

/-!
# ZonePack.Authored.Document

The document form of a zone plan: which keys its records have, which of them may
be left out, and how an effect's type is written.  `Config.ofDocument` reads a
plan and finishes it.
-/

namespace ZonePack

open Json (Reader Record Field Fault SchemaFault Value)

/-! ## Effects -/

namespace EffectMode

/-- The value of a key that an object has exactly once. -/
def valueOnce? (key : String) (entries : List (String × Value)) : Option Value :=
  match entries.filter fun e => e.1 = key with
  | [(_, v)] => some v
  | _ => none

/-- A number of seconds: an integer of 32 bits without sign. -/
def seconds? : Value → Option UInt32
  | .scalar (.number (.integer n)) =>
    if 0 ≤ n ∧ n < UInt32.size then some (UInt32.ofNat n.toNat) else none
  | _ => none

/-- The mode that a value stands for: the word `constant`, also as the only key
of an object, with null; or an object with a period and a pulse. -/
def ofValue? : Value → Option EffectMode
  | .scalar (.string "constant") => some .constant
  | .object [("constant", .scalar .null)] => some .constant
  | .object entries => do
    let period ← (valueOnce? "period" entries).bind seconds?
    let pulse ← (valueOnce? "pulse" entries).bind seconds?
    return .periodic period pulse
  | _ => none

/-- An effect's mode.  The value is read to its end before it is looked at. -/
def reader (room : Nat) : Reader EffectMode :=
  (Value.reader room).refine fun v =>
    match ofValue? v with
    | some mode => .ok mode
    | none => .error (.schema (.noForm "RawEffectType"))

end EffectMode

namespace Authored

namespace Effect

/-- The fields of an effect that have been read. -/
structure Draft where
  id : Option String
  level : Option (Option Int32)
  mode : Option (Option EffectMode)

/-- An effect has an identifier; its level and its type may be missing or null. -/
def record : Record Draft Effect where
  name := "struct RawEffect"
  fields room := [
    { key := "id"
      isGiven := (·.id.isSome)
      isRequired := true
      fill := fun d => Json.string.map fun id => { d with id := some id } },
    { key := "level"
      isGiven := (·.level.isSome)
      isRequired := true
      fill := fun d => (Json.nullable Json.int32).map fun level => { d with level := some level } },
    { key := "type"
      isGiven := (·.mode.isSome)
      isRequired := true
      fill := fun d =>
        (Json.nullable (EffectMode.reader room)).map fun mode => { d with mode := some mode } }]
  blank := ⟨none, none, none⟩
  build d :=
    match d.id with
    | none => .error (.missingField "id")
    | some id => .ok ⟨id, d.level.join, d.mode.join⟩

end Effect

/-! ## Gain steps -/

/-- The fields of a gain step that have been read. -/
structure StepDraft where
  distance : Option Int64
  amount : Option Int64

/-- A gain step has both its fields. -/
def stepRecord : Record StepDraft GainStep where
  name := "struct RawGainStep"
  fields room := [
    { key := "distance"
      isGiven := (·.distance.isSome)
      isRequired := true
      fill := fun d => (Json.whole room).map fun n => { d with distance := some n } },
    { key := "amount"
      isGiven := (·.amount.isSome)
      isRequired := true
      fill := fun d => (Json.whole room).map fun n => { d with amount := some n } }]
  blank := ⟨none, none⟩
  build d :=
    match d.distance, d.amount with
    | none, _ => .error (.missingField "distance")
    | some _, none => .error (.missingField "amount")
    | some distance, some amount => .ok ⟨distance, amount⟩

/-! ## Zones -/

namespace Zone

/-- The fields of a zone that have been read. -/
structure Draft where
  min : Option (Option Int64)
  max : Option (Option Int64)
  effect : Option Effect

/-- The key of the radius that a zone starts at. -/
def minKey : Axis → String
  | .distance => "minDistance"
  | .insanity => "minInsanity"

/-- The key of the radius that a zone reaches out to. -/
def maxKey : Axis → String
  | .distance => "maxDistance"
  | .insanity => "maxInsanity"

/-- What messages call a zone of an axis. -/
def recordName : Axis → String
  | .distance => "struct RawDistanceZone"
  | .insanity => "struct RawInsanityZone"

/-- A zone has an effect; its bounds may be missing or null. -/
def record (axis : Axis) : Record Draft Zone where
  name := recordName axis
  fields room := [
    { key := minKey axis
      isGiven := (·.min.isSome)
      isRequired := false
      fill := fun d => (Json.nullable (Json.whole room)).map fun n => { d with min := some n } },
    { key := maxKey axis
      isGiven := (·.max.isSome)
      isRequired := false
      fill := fun d => (Json.nullable (Json.whole room)).map fun n => { d with max := some n } },
    { key := "effect"
      isGiven := (·.effect.isSome)
      isRequired := true
      fill := fun d => (Effect.record.reader room).map fun e => { d with effect := some e } }]
  blank := ⟨none, none, none⟩
  build d :=
    match d.effect with
    | none => .error (.missingField "effect")
    | some effect => .ok ⟨d.min.join, d.max.join, effect⟩

end Zone

/-! ## The plan -/

/-- The fields of a plan that have been read. -/
structure Draft where
  gainSteps : Option (List GainStep)
  distanceZones : Option (List Zone)
  insanityZones : Option (List Zone)

/-- A plan has three lists; one that is missing is empty. -/
def record : Record Draft Authored where
  name := "struct RawConfig"
  fields room := [
    { key := "insanityGain"
      isGiven := (·.gainSteps.isSome)
      isRequired := false
      fill := fun d =>
        (Json.listOf stepRecord.reader room).map fun steps => { d with gainSteps := some steps } },
    { key := "distanceZones"
      isGiven := (·.distanceZones.isSome)
      isRequired := false
      fill := fun d =>
        (Json.listOf (Zone.record .distance).reader room).map fun zones =>
          { d with distanceZones := some zones } },
    { key := "insanityZones"
      isGiven := (·.insanityZones.isSome)
      isRequired := false
      fill := fun d =>
        (Json.listOf (Zone.record .insanity).reader room).map fun zones =>
          { d with insanityZones := some zones } }]
  blank := ⟨none, none, none⟩
  build d := .ok ⟨d.gainSteps.getD [], d.distanceZones.getD [], d.insanityZones.getD []⟩

/-- The plan that a document holds, as written. -/
def ofDocument (text : String) : Except Fault Authored :=
  (record.reader Json.depthLimit).document text

end Authored

/-! ## Finished plans -/

/-- Why a document gives no plan. -/
inductive ConfigError where
  | document (fault : Fault)
  | unbounded (zone : UnboundedZone)
  deriving DecidableEq, Repr

namespace ConfigError

def message : ConfigError → String
  | document fault => "json error: " ++ fault.message
  | unbounded zone => zone.message

end ConfigError

namespace Config

/-- The finished plan that a document holds.  The whole document is read before
any zone is refused. -/
def ofDocument (text : String) : Except ConfigError Config :=
  match Authored.ofDocument text with
  | .error fault => .error (.document fault)
  | .ok a => a.normalize.mapError .unbounded

end Config

end ZonePack
