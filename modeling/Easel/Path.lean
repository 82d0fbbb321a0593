/-!
# File names

The file that a path names is its last component, apart from components that
stay in the same folder.  The extension of a file name is what follows its
last dot, unless that dot is its first character.
-/

namespace Easel.Path

/-- Whether a component of a path stays in the same folder. -/
def isTrivial (component : String) : Bool :=
  component == "" || component == "."

/-- The components in front of the file's name, and the name. -/
def split? (path : String) : Option (List String × String) :=
  match (path.splitOn "/").reverse.dropWhile isTrivial with
  | [] => none
  | name :: folders =>
    if name = ".." then none else some (folders.reverse, name)

/-- A file's name in front of its extension, and the extension. -/
def splitName (name : String) : String × Option String :=
  let reversed := name.toList.reverse
  match reversed.dropWhile (· ≠ '.') with
  | '.' :: stem =>
    if stem.isEmpty then (name, none)
    else (String.ofList stem.reverse,
      some (String.ofList (reversed.takeWhile (· ≠ '.')).reverse))
  | _ => (name, none)

/-- The extension of the file that a path names. -/
def extension? (path : String) : Option String := do
  let (_, name) ← split? path
  (splitName name).2

/-- The path with another extension. -/
def withExtension (path extension : String) : String :=
  match split? path with
  | none => path
  | some (folders, name) =>
    "/".intercalate (folders ++ [s!"{(splitName name).1}.{extension}"])

end Easel.Path
