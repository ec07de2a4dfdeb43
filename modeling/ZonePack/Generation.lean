import ZonePack.Authored.Document
import ZonePack.Disk
import ZonePack.Pack

/-!
# ZonePack.Generation

Reading a plan from a disk and writing its pack to it.  Files are written one by
one in the order of the pack, with the directories they need; nothing is ever
removed, and what was written before a failure stays.
-/

namespace ZonePack

/-! ## Reading the plan -/

/-- Why no plan could be loaded. -/
inductive LoadError where
  | unreadable (path : Path) (cause : FileError)
  | config (cause : ConfigError)
  deriving DecidableEq, Repr

namespace LoadError

def message : LoadError → String
  | unreadable path cause => "failed to read config " ++ path.text ++ ": " ++ cause.message
  | config cause => cause.message

end LoadError

namespace Config

variable {m : Type → Type} [Monad m] [Disk m]

/-- The finished plan of a document on the disk. -/
def load (path : Path) : m (Except LoadError Config) := do
  match ← Disk.readText path with
  | .error e => return .error (.unreadable path e)
  | .ok text => return (ofDocument text).mapError .config

end Config

/-! ## Writing the pack -/

/-- The directory or file that could not be written. -/
structure WriteError where
  path : Path
  cause : FileError
  deriving DecidableEq, Repr

namespace WriteError

def message (e : WriteError) : String :=
  "failed to write " ++ e.path.text ++ ": " ++ e.cause.message

end WriteError

/-- What has been written. -/
structure Report where
  predicates : Nat
  scripts : Nat
  periodicZones : Nat
  /-- The path of each file, in the order of writing. -/
  written : List Path
  deriving DecidableEq, Repr

namespace Report

/-- The report with one more file. -/
def add (report : Report) (path : Path) (file : PackFile) : Report :=
  { report with
    predicates := report.predicates + file.isPredicate.toNat
    scripts := report.scripts + (!file.isPredicate).toNat
    written := report.written ++ [path] }

end Report

namespace PackFile

variable {m : Type → Type} [Monad m] [Disk m]

/-- Writes a file under a root, after making its folder. -/
def write (root : Path) (file : PackFile) : m (Except WriteError Path) := do
  let folder := root.join file.folder
  let path := root.join file.path
  match ← Disk.makeDirs folder with
  | .error e => return .error ⟨folder, e⟩
  | .ok () =>
    match ← Disk.write path file.text.toUTF8 with
    | .error e => return .error ⟨path, e⟩
    | .ok () => return .ok path

end PackFile

namespace Pack

variable {m : Type → Type} [Monad m] [Disk m]

/-- Writes files in their order, up to the first failure. -/
def writeFiles (root : Path) : Report → List PackFile → m (Except WriteError Report)
  | report, [] => return .ok report
  | report, file :: files => do
    match ← file.write root with
    | .error e => return .error e
    | .ok path => writeFiles root (report.add path file) files

/-- Writes all files of a pack under a root. -/
def write (root : Path) (pack : Pack) : m (Except WriteError Report) :=
  writeFiles root ⟨0, 0, pack.periodicZones, []⟩ pack.files

end Pack

end ZonePack
