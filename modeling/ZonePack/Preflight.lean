import ZonePack.Disk
import ZonePack.Layout

/-!
# ZonePack.Preflight

What has to be in order before anything is written: the plan's document and the
output directory have to be there, and unless overwriting was asked for, the two
folders of generated files have to be missing or empty.  All that is not in
order is reported at once.
-/

namespace ZonePack

/-- A reason not to start. -/
inductive Issue where
  | missingConfig (config : Path)
  | missingOutput (output : Path)
  | outputNotEmpty (predicates scripts : Path)
  deriving DecidableEq, Repr

namespace Issue

def message : Issue → String
  | missingConfig config => "Cannot find config file " ++ config.text
  | missingOutput output => "Cannot find output directory " ++ output.text
  | outputNotEmpty predicates scripts =>
    "Output directories " ++ predicates.text ++ " and " ++ scripts.text ++
      " not empty. Use -f to overwrite existing configs"

/-- The message for some issues: a line for each of them. -/
def messageOfAll (issues : List Issue) : String :=
  "\n".intercalate (issues.map message)

end Issue

namespace Preflight

variable {m : Type → Type} [Monad m] [Disk m]

/-- Whether a folder has something in it.  What is there but cannot be listed
counts as full. -/
def isOccupied (folder : Path) : m Bool := do
  match ← Disk.isEmptyDir folder with
  | .ok isEmpty => return !isEmpty
  | .error _ => Disk.isPresent folder

/-- The issue with the document, if there is one. -/
def configIssues (config : Path) : m (List Issue) := do
  return if ← Disk.isFile config then [] else [.missingConfig config]

/-- The issue with the output, if there is one; `force` lets full folders pass. -/
def outputIssues (output : Path) (force : Bool) : m (List Issue) := do
  let predicates := output.join Layout.predicateFolder
  let scripts := output.join Layout.scriptFolder
  if ← Disk.isDir output then
    if force then return []
    else if ← isOccupied predicates then return [.outputNotEmpty predicates scripts]
    else if ← isOccupied scripts then return [.outputNotEmpty predicates scripts]
    else return []
  else return [.missingOutput output]

/-- All reasons not to start. -/
def issues (config output : Path) (force : Bool) : m (List Issue) := do
  let first ← configIssues config
  let second ← outputIssues output force
  return first ++ second

end Preflight

end ZonePack
