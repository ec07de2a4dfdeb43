import ZonePack.CommandLine

/-!
# ZonePack.Main

The program: a run of the command line over real files.  Nothing is decided
here; the file operations hand on what the system answers.
-/

namespace ZonePack

namespace FileError

/-- The cause of an error of the system, by its number. -/
def ofSystem (number : UInt32) (details : String) : FileError :=
  if number = 2 then notFound
  else if number = 17 then alreadyExists
  else if number = 20 then notDirectory
  else if number = 21 then isDirectory
  else if number = 36 then nameTooLong
  else other (details ++ " (os error " ++ toString number ++ ")")

/-- The cause of an error of a file operation. -/
def ofIO : IO.Error → FileError
  | .noFileOrDirectory _ number details => ofSystem number details
  | .alreadyExists _ number details => ofSystem number details
  | .inappropriateType _ number details => ofSystem number details
  | .permissionDenied _ number details => ofSystem number details
  | .invalidArgument _ number details => ofSystem number details
  | .resourceExhausted _ number details => ofSystem number details
  | .resourceBusy number details => ofSystem number details
  | .hardwareFault number details => ofSystem number details
  | .otherError number details => ofSystem number details
  | error => other (toString error)

end FileError

/-- The answer of a file operation, with its error as a value. -/
def attempt {α : Type} (operation : IO α) : IO (Except FileError α) := do
  try
    return .ok (← operation)
  catch error =>
    return .error (.ofIO error)

/-- Real files.  The empty path leads nowhere. -/
instance : Disk IO where
  isFile p := do
    if p.text = "" then return false
    match ← attempt ((← IO.currentDir) / p.text).metadata with
    | .ok data => return data.type == .file
    | .error _ => return false
  isDir p := do
    if p.text = "" then return false
    ((← IO.currentDir) / p.text).isDir
  isPresent p := do
    if p.text = "" then return false
    ((← IO.currentDir) / p.text).pathExists
  isEmptyDir p := do
    if p.text = "" then return .error .notFound
    attempt do return (← ((← IO.currentDir) / p.text).readDir).isEmpty
  read p := attempt (IO.FS.readBinFile p.text)
  makeDir p := attempt (IO.FS.createDir p.text)
  write p bytes := attempt (IO.FS.writeBinFile p.text bytes)

end ZonePack

open ZonePack in
/-- Runs the program with its arguments; its exit code is the run's. -/
def main (arguments : List String) : IO UInt32 := do
  let outcome ← CommandLine.run arguments
  IO.print outcome.output
  for line in outcome.log ++ outcome.errorLines do
    IO.eprintln line
  if outcome.ending = .stopped .misused then
    IO.eprintln "Usage: softborder-gen [OPTIONS]"
  return outcome.exitCode.toUInt32
