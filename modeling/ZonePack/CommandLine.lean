import ZonePack.Generation
import ZonePack.Preflight
import ZonePack.Text.Terminal

/-!
# ZonePack.CommandLine

The command line: its options, a whole run over any `Disk`, and what the run
shows.  Arguments are taken from left to right; the first one that is wrong, or
that asks for help or the version, decides.
-/

namespace ZonePack

namespace CommandLine

/-! ## Texts -/

def programName : String := "softborder-gen"

def version : String := "0.3.0"

def versionText : String := programName ++ " " ++ version ++ "\n"

def helpText : String :=
  "Generates softborder datapack files from config\n" ++
  "\n" ++
  "Usage: softborder-gen [OPTIONS]\n" ++
  "\n" ++
  "Options:\n" ++
  "  -c, --config <CONFIG>  Path to the config file [default: ./config.json]\n" ++
  "  -o, --output <OUTPUT>  Path to the datapack folder [default: .]\n" ++
  "  -f, --force            Overwrite existing generated files\n" ++
  "  -h, --help             Print help\n" ++
  "  -V, --version          Print version\n"

/-! ## Arguments -/

/-- The options given so far. -/
structure Options where
  config : Option Path
  output : Option Path
  force : Bool
  deriving DecidableEq, Repr

namespace Options

/-- The options before any argument. -/
def initial : Options := ⟨none, none, false⟩

/-- The document to read; by default one in the working directory. -/
def configPath (o : Options) : Path := o.config.getD ⟨"./config.json"⟩

/-- The root to write under; by default the working directory. -/
def outputPath (o : Options) : Path := o.output.getD ⟨"."⟩

end Options

/-- Why the arguments give no run. -/
inductive Stop where
  | help
  | version
  | misused
  deriving DecidableEq, Repr

/-- An option that takes a value. -/
inductive Setting where
  | config
  | output
  deriving DecidableEq, Repr

/-- The options with one more value, which may not be empty, for an option that
has none yet. -/
def Options.set (o : Options) (setting : Setting) (value : String) : Except Stop Options :=
  if value = "" then .error .misused
  else match setting, o.config, o.output with
    | .config, none, _ => .ok { o with config := some ⟨value⟩ }
    | .output, _, none => .ok { o with output := some ⟨value⟩ }
    | _, _, _ => .error .misused

/-- The options with overwriting, which may be asked for once. -/
def Options.setForce (o : Options) : Except Stop Options :=
  if o.force then .error .misused else .ok { o with force := true }

/-- What an argument leaves to do. -/
inductive Taken where
  /-- The argument is dealt with. -/
  | all (options : Options)
  /-- The next argument is the value of an option. -/
  | valueDue (setting : Setting) (options : Options)
  deriving DecidableEq, Repr

/-- The value of an option in the argument of its letter: an equals sign before
it does not belong to it. -/
def takeAttached (o : Options) (setting : Setting) : List Char → Except Stop Taken
  | [] => .ok (.valueDue setting o)
  | '=' :: value => (o.set setting (String.ofList value)).map .all
  | value => (o.set setting (String.ofList value)).map .all

/-- The letters after a dash: flags, and at the end perhaps an option, with the
rest as its value. -/
def takeLetters (o : Options) : List Char → Except Stop Taken
  | [] => .ok (.all o)
  | 'h' :: _ => .error .help
  | 'V' :: _ => .error .version
  | 'f' :: rest =>
    match o.setForce with
    | .error stop => .error stop
    | .ok o => takeLetters o rest
  | 'c' :: rest => takeAttached o .config rest
  | 'o' :: rest => takeAttached o .output rest
  | _ :: _ => .error .misused

/-- The word after two dashes: a flag, an option, or an option with its value
after an equals sign. -/
def takeWord (o : Options) (word : List Char) : Except Stop Taken :=
  let name := String.ofList (word.takeWhile (· ≠ '='))
  match name, word.dropWhile (· ≠ '=') with
  | "help", [] => .error .help
  | "version", [] => .error .version
  | "force", [] => o.setForce.map .all
  | "config", [] => .ok (.valueDue .config o)
  | "output", [] => .ok (.valueDue .output o)
  | "config", _ :: value => (o.set .config (String.ofList value)).map .all
  | "output", _ :: value => (o.set .output (String.ofList value)).map .all
  | _, _ => .error .misused

/-- One argument that is not the value of an option before it. -/
def takeArgument (o : Options) (argument : String) : Except Stop Taken :=
  match argument.toList with
  | '-' :: '-' :: word => takeWord o word
  | '-' :: c :: letters => takeLetters o (c :: letters)
  | _ => .error .misused

/-- Whether an argument can be the value of an option before it: it must not
start with a dash, but it may be one. -/
def isValue (argument : String) : Bool :=
  argument = "-" || argument.toList.head? ≠ some '-'

/-- The options of an argument list.  Two dashes end the options; nothing may
follow them. -/
def takeArguments (o : Options) : List String → Except Stop Options
  | [] => .ok o
  | ["--"] => .ok o
  | argument :: arguments =>
    match takeArgument o argument, arguments with
    | .error stop, _ => .error stop
    | .ok (.all o), arguments => takeArguments o arguments
    | .ok (.valueDue _ _), [] => .error .misused
    | .ok (.valueDue setting o), value :: arguments =>
      if isValue value then
        match o.set setting value with
        | .error stop => .error stop
        | .ok o => takeArguments o arguments
      else .error .misused

/-! ## Runs -/

/-- Why a run has failed. -/
inductive Failure where
  | refused (issues : List Issue)
  | load (cause : LoadError)
  | write (cause : WriteError)
  deriving DecidableEq, Repr

namespace Failure

def message : Failure → String
  | refused issues => Issue.messageOfAll issues
  | load cause => cause.message
  | write cause => cause.message

end Failure

/-- How a run has ended. -/
inductive Ending where
  | stopped (stop : Stop)
  | failed (failure : Failure)
  | generated
  deriving DecidableEq, Repr

/-- What a run has shown and how it has ended. -/
structure Outcome where
  /-- The steps that were completed. -/
  log : List String
  ending : Ending
  deriving DecidableEq, Repr

/-- The lines of a text; a carriage return before a line feed is part of the
line's end, and nothing after the last line feed is no line. -/
def linesOf (line : List Char) : List Char → List String
  | [] => if line = [] then [] else [String.ofList line.reverse]
  | '\n' :: rest =>
    String.ofList (if line.head? = some '\r' then line.tail else line).reverse :: linesOf [] rest
  | c :: rest => linesOf (c :: line) rest

namespace Outcome

def exitCode (o : Outcome) : Nat :=
  match o.ending with
  | .stopped .help | .stopped .version | .generated => 0
  | .failed _ => 1
  | .stopped .misused => 2

/-- What the run prints. -/
def output (o : Outcome) : String :=
  match o.ending with
  | .stopped .help => helpText
  | .stopped .version => versionText
  | _ => ""

/-- The lines that say what went wrong. -/
def errorLines (o : Outcome) : List String :=
  match o.ending with
  | .failed failure => (linesOf [] failure.message.toList).map ("Error: " ++ ·)
  | _ => []

end Outcome

/-- The log line for a plan that has been read. -/
def loadedLine (config : Path) (c : Config) : String :=
  Text.inert ("Loaded " ++ config.text ++ ": " ++ c.gainSteps.length.repr ++ " gain steps, " ++
    c.distanceZones.length.repr ++ " distance zones, " ++
    c.insanityZones.length.repr ++ " insanity zones")

/-- The log line for a pack that has been written. -/
def wroteLine (output : Path) (r : Report) : String :=
  Text.inert ("Wrote " ++ r.predicates.repr ++ " predicates and " ++ r.scripts.repr ++
    " functions (" ++ r.periodicZones.repr ++ " periodic) under " ++ output.text)

variable {m : Type → Type} [Monad m] [Disk m]

/-- Checks, reads the plan and writes its pack. -/
def generate (config output : Path) (force : Bool) : m Outcome := do
  match ← Preflight.issues config output force with
  | issue :: issues => return ⟨[], .failed (.refused (issue :: issues))⟩
  | [] =>
    match ← Config.load config with
    | .error e => return ⟨[], .failed (.load e)⟩
    | .ok c =>
      match ← (Pack.ofConfig c).write output with
      | .error e => return ⟨[loadedLine config c], .failed (.write e)⟩
      | .ok report =>
        return ⟨[loadedLine config c, wroteLine output report], .generated⟩

/-- A run with the given arguments. -/
def run (arguments : List String) : m Outcome :=
  match takeArguments .initial arguments with
  | .error stop => return ⟨[], .stopped stop⟩
  | .ok o => generate o.configPath o.outputPath o.force

end CommandLine

end ZonePack
