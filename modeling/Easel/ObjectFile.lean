import Easel.CompileError
import Easel.Decimal.Read
import Easel.Text.Blank
import Easel.Text.Lines

/-!
# Object files

An object file is the text form of an executable: the number of quadruples
and the quadruples, then the number of constants and the constants, one item
to a line.  A constant is its literal followed by its address, from which its
element follows.

Reading is lenient about blanks and empty lines and strict about all else.
Lines count from one; line zero stands for the end of the file.
-/

namespace Easel

namespace Executable

/-- A constant as object files write it. -/
def constantText (constant : Constant) : String :=
  s!"{constant.text} {constant.address}"

/-- The lines of an executable's object file. -/
def lines (executable : Executable) : List String :=
  [toString executable.code.size] ++ executable.code.toList.map Quad.text ++
    [toString executable.constants.length] ++
      executable.constants.map constantText

/-- The object file of an executable. -/
def write (executable : Executable) : String :=
  String.join (executable.lines.map (· ++ "\n"))

/-- The lines of a text that are not blank, numbered and trimmed. -/
def numberedLines (text : List Char) : List (Nat × List Char) :=
  let (first, rest) := Text.splitLines text
  let trimmed := (first :: rest).mapIdx fun index line =>
    (index + 1, Text.trimEnd line)
  trimmed.filter fun (_, line) => !line.isEmpty

/-- The greatest count that an object file can give. -/
def greatestCount : Nat := 18446744073709551615

/-- Read a count. -/
def readCount (part : ObjectPart) :
    List (Nat × List Char) → Except CompileError (Nat × List (Nat × List Char))
  | [] => .error (.object (.missing part) 0)
  | (number, line) :: rest =>
    match Decimal.readNatural? greatestCount (Text.trim line) with
    | some count => .ok (count, rest)
    | none => .error (.object (.invalidCount part) number)

/-- Read an address. -/
def readAddress (number : Nat) (field : List Char) :
    Except CompileError Address :=
  match Decimal.readInteger? (-2147483648) 2147483647 field with
  | some address => .ok address
  | none => .error (.object (.invalidAddress (String.ofList field)) number)

/-- Read a quadruple from its line. -/
def readQuad (number : Nat) (line : List Char) : Except CompileError Quad :=
  match Text.words line with
  | [name, left, right, result] =>
    match Operation.ofName? (String.ofList name) with
    | none => .error (.object (.unknownOperation (String.ofList name)) number)
    | some operation => do
      return ⟨operation, ← readAddress number left, ← readAddress number right,
        ← readAddress number result⟩
  | _ => .error (.object .fieldCount number)

/-- Cut a line at its last blank. -/
def splitLast? (line : List Char) : Option (List Char × List Char) :=
  match line.reverse.dropWhile (!Text.isBlank ·) with
  | [] => none
  | _ :: front =>
    some (front.reverse, (line.reverse.takeWhile (!Text.isBlank ·)).reverse)

/-- Read a constant from its line. -/
def readConstant (number : Nat) (line : List Char) :
    Except CompileError Constant :=
  match splitLast? (Text.trimStart line) with
  | none => .error (.object .constantShape number)
  | some (text, field) => do
    let address ← readAddress number field
    match (locate? address).filter fun location =>
      location.region == .constant with
    | some location =>
      return ⟨String.ofList (Text.trimEnd text), location.element, address⟩
    | none => .error (.object (.notConstant address) number)

/-- Read as many items as `count` says, each from its own line. -/
def readItems {α : Type}
    (part : ObjectPart)
    (read : Nat → List Char → Except CompileError α) :
    Nat → List (Nat × List Char) →
      Except CompileError (List α × List (Nat × List Char))
  | 0, lines => .ok ([], lines)
  | _ + 1, [] => .error (.object (.missing part) 0)
  | count + 1, (number, line) :: rest => do
    let item ← read number line
    let (items, rest) ← readItems part read count rest
    return (item :: items, rest)

/-- Read an object file. -/
def parse (text : String) : Except CompileError Executable := do
  let (codeCount, rest) ← readCount .codeCount (numberedLines text.toList)
  let (code, rest) ← readItems .quad readQuad codeCount rest
  let (constantCount, rest) ← readCount .constantCount rest
  let (constants, rest) ← readItems .constant readConstant constantCount rest
  match rest with
  | [] => return ⟨code.toArray, constants⟩
  | (number, _) :: _ => .error (.object .trailing number)

end Executable

end Easel
