import Easel.Command.Host

/-!
# Desks

A desk is a host without a system: a working folder that is held in memory,
together with the text that was printed.  What a command does on a desk is a
function of the files that lie there.
-/

namespace Easel.Command

/-- Files and their contents, and what was printed. -/
structure Desk where
  files : List (String × String) := []
  output : String := ""
  errors : String := ""
deriving Repr, DecidableEq, Inhabited

namespace Desk

/-- A path without the mark for the working folder in front. -/
def relative (path : String) : String :=
  match path.toList with
  | '.' :: '/' :: rest => String.ofList rest
  | _ => path

/-- The folders on the way to a file. -/
def folders (path : String) : List String :=
  (path.splitOn "/").dropLast

/-- Whether the folder of a file exists: the working one or another file's. -/
def hasFolder (desk : Desk) (path : String) : Bool :=
  folders path == [] || desk.files.any fun (name, _) =>
    folders name == folders path

/-- Put a file on the desk in place of one with the same name. -/
def put (desk : Desk) (path contents : String) : Desk :=
  { desk with files := desk.files.filter (·.1 ≠ path) ++ [(path, contents)] }

/-- The host that works on a desk. -/
def host : Host (StateM Desk) where
  load path := do
    match (← get).files.lookup (relative path) with
    | some contents => return .ok contents
    | none => return .error absent
  save path contents := do
    if (← get).hasFolder (relative path) then
      modify (·.put (relative path) contents)
      return .ok ()
    else return .error absent
  print text := modify fun desk => { desk with output := desk.output ++ text }
  complain text := modify fun desk =>
    { desk with errors := desk.errors ++ text }

end Desk

end Easel.Command
