import Easel.Command.Build
import Easel.Command.Play

/-!
# The program

One program holds both commands.  Installed under the compiler's name it
compiles, under any other name it plays.
-/

namespace Easel

/-- Why a file could not be read or written. -/
def reasonOf : IO.Error → String
  | .noFileOrDirectory .. => Command.absent
  | .permissionDenied .. => "Permission denied (os error 13)"
  | error => toString error

/-- Carry out a file operation, keeping the reason of a failure. -/
def attempt (action : IO α) : IO (Except String α) := do
  try return .ok (← action)
  catch error => return .error (reasonOf error)

/-- The system on which the program runs. -/
def system : Command.Host IO where
  load path := attempt (IO.FS.readFile path)
  save path contents := attempt (IO.FS.writeFile path contents)
  print text := do
    let out ← IO.getStdout
    out.putStr text
    out.flush
  complain := IO.eprint

end Easel

/-- Run the command that the program's name asks for. -/
def main (arguments : List String) : IO UInt32 := do
  let name := (← IO.appPath).fileName.getD "doodle"
  let status ←
    if name = "doodlec" then Easel.Command.Build.run Easel.system name arguments
    else Easel.Command.Play.run Easel.system name arguments
  return status.toUInt32
