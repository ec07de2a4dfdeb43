import ZonePack.EffectScripts
import ZonePack.GainBand
import ZonePack.Layout
import ZonePack.Predicate

/-!
# ZonePack.Pack

All files of a zone plan.  A pack keeps them in the order in which they are
written, and two files may have one path: then the later one is what stays, and
what `Pack.get?` finds.
-/

namespace ZonePack

/-! ## Files -/

/-- What a file of a pack holds. -/
inductive PackBody where
  | predicate (p : Predicate)
  | script (s : Script)
  deriving DecidableEq, Repr

/-- A named file of a pack. -/
structure PackFile where
  name : String
  body : PackBody
  deriving DecidableEq, Repr

namespace PackFile

/-- The folder of the file, inside the pack. -/
def folder (f : PackFile) : Path :=
  match f.body with
  | .predicate _ => Layout.predicateFolder
  | .script _ => Layout.scriptFolder

/-- The path of the file, inside the pack. -/
def path (f : PackFile) : Path :=
  match f.body with
  | .predicate _ => Layout.predicateFile f.name
  | .script _ => Layout.scriptFile f.name

/-- What is written into the file. -/
def text (f : PackFile) : String :=
  match f.body with
  | .predicate p => p.text
  | .script s => s.text

/-- Whether the file holds a predicate. -/
def isPredicate (f : PackFile) : Bool :=
  match f.body with
  | .predicate _ => true
  | .script _ => false

end PackFile

namespace GainBand

/-- The file of a band's predicate. -/
def file (b : GainBand) : PackFile :=
  ⟨b.name, .predicate (.ofBounds .distance b.bounds)⟩

end GainBand

namespace Zone

/-- The file of a zone's predicate. -/
def file (z : Zone) : PackFile :=
  ⟨z.name, .predicate (.ofBounds z.axis z.bounds)⟩

end Zone

namespace PeriodicLoop

/-- The file of a loop. -/
def file (l : PeriodicLoop) : PackFile :=
  ⟨l.name, .script l.script⟩

end PeriodicLoop

/-! ## Packs -/

/-- The files of a plan, in the order in which they are written. -/
structure Pack where
  files : List PackFile
  /-- How many zones have a loop of their own. -/
  periodicZones : Nat
  deriving DecidableEq, Repr

namespace Pack

/-- The predicates of a plan: those of its gain bands, then those of its zones. -/
def predicateFiles (c : Config) : List PackFile :=
  (GainBand.ofSteps c.gainSteps).map GainBand.file ++ c.zones.map Zone.file

/-- The functions of a plan: the loops stand between the fixed functions. -/
def scriptFiles (c : Config) : List PackFile :=
  let scripts := EffectScripts.ofConfig c
  ⟨Name.updateInsanity, .script (.updateInsanity c.gainSteps)⟩ ::
    ⟨Name.applyConstantEffects, .script scripts.constant⟩ ::
    scripts.periodic.map PeriodicLoop.file ++
    [⟨Name.startPeriodicEffects, .script scripts.start⟩,
      ⟨Name.stopPeriodicEffects, .script scripts.stop⟩]

/-- The files of a plan. -/
def ofConfig (c : Config) : Pack where
  files := predicateFiles c ++ scriptFiles c
  periodicZones := (EffectScripts.ofConfig c).periodic.length

/-- The last file with a path that says the same as `path`. -/
def get? (pack : Pack) (path : Path) : Option PackFile :=
  pack.files.findRev? fun f => f.path.Alike path

end Pack

end ZonePack
