import Easel.Command.Host
import Easel.Compile
import Easel.ObjectFile
import Easel.Path
import Easel.Session
import Easel.Settings

/-!
# The player command

The player command runs a program, which is compiled first unless it is an
object file.  The lines that the program writes are printed while it runs.
-/

namespace Easel.Command.Play

/-- What the command is asked to do. -/
structure Options where
  settings : Option String := none
  headless : Bool := false
  program : Option String := none
deriving Repr, DecidableEq, Inhabited

/-- Why the command does nothing. -/
inductive Refusal where
  | help
  | missingPath
  | unknownOption (option : String)
deriving Repr, DecidableEq, Inhabited

/-- Read arguments in order. -/
def readArguments (options : Options) : List String → Except Refusal Options
  | [] => .ok options
  | "--config" :: rest =>
    match rest with
    | [] => .error .missingPath
    | path :: rest => readArguments { options with settings := some path } rest
  | "--headless" :: rest => readArguments { options with headless := true } rest
  | "-h" :: _ | "--help" :: _ => .error .help
  | argument :: rest =>
    if argument.startsWith "-" then .error (.unknownOption argument)
    else readArguments { options with program := some argument } rest

/-- Instructions for use. -/
def usage (program : String) : String :=
  "doodle - compiler and virtual machine for the Doodle drawing language\n\n" ++
    s!"Usage: {program} [--config path] [--headless] <program.dl | program.obj>\n\n" ++
    "Settings are read from doodle.toml in the working directory when present.\n"

/-- The settings file that is read if no other is named. -/
def defaultSettings : String := "doodle.toml"

/-- Instructions that are executed before new lines are printed. -/
def turn : Nat := 1024

variable {m : Type → Type} [Monad m] (host : Host m)

/-- Read settings; a file that was named has to exist. -/
def readSettings (path : Option String) : m (Except String Settings) := do
  let name := path.getD defaultSettings
  match ← host.load name with
  | .error reason =>
    if path.isNone && reason == absent then return .ok {}
    else return .error s!"Cannot read config {name}: {reason}"
  | .ok text =>
    match Settings.parse text with
    | .ok settings => return .ok settings
    | .error error => return .error s!"Invalid config {name}: {error.message}"

/-- The code of a program. -/
def readProgram (path entry : String) : m (Except CompileError Executable) := do
  match ← host.load path with
  | .error reason => return .error (.parse (.unreadable path reason) 0)
  | .ok text =>
    if Path.extension? path = some "obj" then return Executable.parse text
    else return compile text entry

/-- Print the lines that were written after the first `printed` lines. -/
def printLines (screen : Screen) (printed : Nat) : m Unit :=
  (screen.lines.toList.drop printed).forM fun line => host.print s!"{line}\n"

/-- Run a session to its end, at most `fuel` turns, and print what it writes. -/
def perform (session : Session) : Nat → m (Option Fault)
  | 0 => return some (.stepLimit Session.counterBound)
  | fuel + 1 => do
    let printed := session.machine.screen.lines.size
    match session.runFor turn with
    | .running next =>
      printLines host next.machine.screen printed
      perform next fuel
    | .stopped last fault =>
      printLines host last.machine.screen printed
      return fault

/--
Run a program.  There is no canvas to draw on, so drawings are recorded and
lines are printed in every display mode.
-/
def play (executable : Executable) (limit : Option Nat) : m Status := do
  match Machine.load executable {} with
  | .error fault => host.fail fault.message 2
  | .ok machine =>
    match ← perform host { machine, limit } Session.counterBound with
    | some fault => host.fail fault.message 2
    | none => return 0

/-- Run the program that the options name. -/
def playFile (options : Options) (path : String) : m Status := do
  match ← readSettings host options.settings with
  | .error message => host.fail message 1
  | .ok settings =>
    match ← readProgram host path settings.runtime.entry with
    | .error error => host.fail error.message 1
    | .ok executable => play host executable settings.runtime.maxSteps

/-- Run the command. -/
def run (program : String) (arguments : List String) : m Status := do
  match readArguments {} arguments with
  | .error .help =>
    host.print (usage program)
    return 0
  | .error .missingPath => host.fail "--config requires a path" 1
  | .error (.unknownOption option) => host.fail s!"Unknown option '{option}'" 1
  | .ok options =>
    match options.program with
    | some path => playFile host options path
    | none =>
      if arguments.isEmpty then
        host.print (usage program)
        return 0
      else
        let status ← host.fail "No program file specified" 1
        host.print (usage program)
        return status

end Easel.Command.Play
