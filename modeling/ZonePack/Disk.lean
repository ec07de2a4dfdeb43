import ZonePack.Path

/-!
# ZonePack.Disk

The operations on files that generation needs, as an interface: `Disk m` says
that programs in `m` can look at files and write them.  `FileTree` has them on a
value, and the command line has them on real files.
-/

namespace ZonePack

/-- Why an operation on files has failed. -/
inductive FileError where
  | notFound
  | alreadyExists
  | notDirectory
  | isDirectory
  /-- A name or the whole path has too many bytes. -/
  | nameTooLong
  /-- A path cannot hold the character zero. -/
  | nulInPath
  /-- The file is there, but it is not UTF-8. -/
  | notText
  /-- Anything else, in the system's words. -/
  | other (text : String)
  deriving DecidableEq, Repr

namespace FileError

def message : FileError → String
  | notFound => "No such file or directory (os error 2)"
  | alreadyExists => "File exists (os error 17)"
  | notDirectory => "Not a directory (os error 20)"
  | isDirectory => "Is a directory (os error 21)"
  | nameTooLong => "File name too long (os error 36)"
  | nulInPath => "file name contained an unexpected NUL byte"
  | notText => "stream did not contain valid UTF-8"
  | other text => text

end FileError

/-- Files that programs in `m` can look at and change. -/
class Disk (m : Type → Type) where
  /-- Whether a regular file is there. -/
  isFile : Path → m Bool
  /-- Whether a directory is there. -/
  isDir : Path → m Bool
  /-- Whether anything is there. -/
  isPresent : Path → m Bool
  /-- Whether a directory holds nothing; fails where no directory can be listed. -/
  isEmptyDir : Path → m (Except FileError Bool)
  /-- The bytes of a file. -/
  read : Path → m (Except FileError ByteArray)
  /-- Makes a directory in a directory that exists. -/
  makeDir : Path → m (Except FileError Unit)
  /-- Makes or overwrites a file in a directory that exists. -/
  write : Path → ByteArray → m (Except FileError Unit)

namespace Disk

variable {m : Type → Type} [Monad m] [Disk m]

/-- The text of a file. -/
def readText (p : Path) : m (Except FileError String) := do
  match ← read p with
  | .error e => return .error e
  | .ok bytes =>
    match String.fromUTF8? bytes with
    | some text => return .ok text
    | none => return .error .notText

/-- Makes the first of some directories, each of which is in the next one.  Only
where the next one is missing, it is made before. -/
def makeNested : List Path → m (Except FileError Unit)
  | [] => return .ok ()
  | p :: around => do
    match ← makeDir p with
    | .ok () => return .ok ()
    | .error .notFound =>
      match ← makeNested around with
      | .error e => return .error e
      | .ok () =>
        match ← makeDir p with
        | .ok () => return .ok ()
        | .error e => return if ← isDir p then .ok () else .error e
    | .error e => return if ← isDir p then .ok () else .error e

/-- Makes a directory and those around it, as far as they are missing. -/
def makeDirs (p : Path) : m (Except FileError Unit) :=
  makeNested p.ancestors

end Disk

end ZonePack
