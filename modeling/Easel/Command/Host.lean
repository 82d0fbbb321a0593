/-!
# The host of a command

A command reads and writes files and prints text.  It does so through a host,
so that it can be run on any system, or on none.
-/

namespace Easel.Command

/-- What a command needs of the system on which it runs. -/
structure Host (m : Type → Type) where
  /-- The contents of a file, or why it cannot be read. -/
  load : String → m (Except String String)
  /-- Write a file, or say why it cannot be written. -/
  save : String → String → m (Except String Unit)
  /-- Print text on the standard output. -/
  print : String → m Unit
  /-- Print text on the standard error. -/
  complain : String → m Unit

/-- Why a file that does not exist cannot be read or written. -/
def absent : String := "No such file or directory (os error 2)"

/-- What a command reports to the system when it ends. -/
abbrev Status := Nat

namespace Host

variable {m : Type → Type} [Monad m] (host : Host m)

/-- Report an error and end with a status. -/
def fail (message : String) (status : Status) : m Status := do
  host.complain s!"Error: {message}\n"
  return status

end Host

end Easel.Command
