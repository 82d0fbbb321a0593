import Easel.Command.Host
import Easel.Compile
import Easel.ObjectFile
import Easel.Path

/-!
# The compiler command

The compiler command compiles one source file and writes an object file.
-/

namespace Easel.Command.Build

/-- What the command is asked to do. -/
structure Options where
  input : String := ""
  output : String := ""
  entry : String := "main"
  listing : Bool := false
  verbose : Bool := false
deriving Repr, DecidableEq, Inhabited

/-- Why the command does nothing. -/
inductive Refusal where
  | help
  | missingFileName
  | missingEntry
  | unknownOption (option : String)
  | multipleInputs
  | noInput
deriving Repr, DecidableEq, Inhabited

/-- The error of a refusal; asking for help is none. -/
def Refusal.message? : Refusal → Option String
  | .help => none
  | .missingFileName => some "-o requires a filename"
  | .missingEntry => some "--entry requires a function name"
  | .unknownOption option => some s!"Unknown option '{option}'"
  | .multipleInputs => some "Multiple input files specified"
  | .noInput => some "No input file specified"

/-- Whether a refusal comes with instructions for use. -/
def Refusal.showsUsage : Refusal → Bool
  | .help | .unknownOption _ | .noInput => true
  | .missingFileName | .missingEntry | .multipleInputs => false

/-- Read arguments in order. -/
def readArguments (options : Options) : List String → Except Refusal Options
  | [] => .ok options
  | "-o" :: rest | "--output" :: rest =>
    match rest with
    | [] => .error .missingFileName
    | output :: rest => readArguments { options with output } rest
  | "--entry" :: rest =>
    match rest with
    | [] => .error .missingEntry
    | entry :: rest => readArguments { options with entry } rest
  | "--listing" :: rest => readArguments { options with listing := true } rest
  | "-v" :: rest | "--verbose" :: rest =>
    readArguments { options with verbose := true } rest
  | "-h" :: _ | "--help" :: _ => .error .help
  | argument :: rest =>
    if argument.startsWith "-" then .error (.unknownOption argument)
    else if options.input = "" then
      readArguments { options with input := argument } rest
    else .error .multipleInputs

/-- What the arguments ask for; by default the output is beside the source. -/
def Options.parse (arguments : List String) : Except Refusal Options := do
  let options ← readArguments {} arguments
  if options.input = "" then throw .noInput
  else if options.output = "" then
    return { options with output := Path.withExtension options.input "obj" }
  else return options

/-- Instructions for use. -/
def usage (program : String) : String :=
  s!"doodlec - Doodle compiler\n\nUsage: {program} [options] <source.dl>\n\n" ++
    "Options:\n" ++
    "  -o, --output <file>   Output object file (default: <source>.obj)\n" ++
    "  --entry <name>        Entry function (default: main)\n" ++
    "  --listing             Print the numbered quadruple listing\n" ++
    "  -v, --verbose         Verbose output\n" ++
    "  -h, --help            Show this help\n"

variable {m : Type → Type} [Monad m] (host : Host m)

/-- Compile as the options say. -/
def compileFile (options : Options) : m Status := do
  if options.verbose then
    host.print
      s!"Compiling {options.input} -> {options.output} (entry '{options.entry}')\n"
  match ← host.load options.input with
  | .error reason => host.fail s!"Cannot read '{options.input}': {reason}" 1
  | .ok source =>
    match compile source options.entry with
    | .error error => host.fail error.message 1
    | .ok executable =>
      if options.listing then host.print executable.listing
      match ← host.save options.output executable.write with
      | .error reason =>
        host.fail s!"Cannot write '{options.output}': {reason}" 1
      | .ok _ =>
        if options.verbose then
          let quads := executable.code.size
          let constants := executable.constants.length
          host.print s!"Wrote {quads} quadruples and {constants} constants\n"
        return 0

/-- Run the command. -/
def run (program : String) (arguments : List String) : m Status := do
  match arguments with
  | [] =>
    host.print (usage program)
    return 1
  | _ =>
    match Options.parse arguments with
    | .ok options => compileFile host options
    | .error refusal =>
      let status ← match refusal.message? with
        | some message => host.fail message 1
        | none => pure 0
      if refusal.showsUsage then host.print (usage program)
      return status

end Easel.Command.Build
