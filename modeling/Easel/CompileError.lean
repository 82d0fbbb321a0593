import Easel.Operator
import Easel.Quad
import Easel.Token

/-!
# Why a program is refused

A program is refused by the reader of its text, by the checks on its names
and types, by the allocator of storage, by the generator of its code, or by
the reader of object files.  Each refusal is a value that says what is wrong
and where; its wording is a function of that value.
-/

namespace Easel

/-- What is wrong with the text of a program. -/
inductive ParseFault where
  | unexpectedCharacter (character : Char)
  | loneCharacter (character : Char)
  | unterminatedString
  | unterminatedEscape
  | emptyCharacter
  | unterminatedCharacter
  | invalidNumber (digits : String)
  /-- Something else stands where `what` is required. -/
  | expected (what : String) (found : Kind)
  | listSize
  | voidList
  | voidVariable
  | voidParameter
  | minusOperand
  | unreadable (path reason : String)
deriving Repr, Inhabited

/-- The wording of a fault in the text. -/
def ParseFault.message : ParseFault → String
  | unexpectedCharacter character => s!"Unexpected character '{character}'"
  | loneCharacter character => s!"Expected '{character}{character}'"
  | unterminatedString => "Unterminated string literal"
  | unterminatedEscape => "Unterminated escape sequence"
  | emptyCharacter => "Empty character literal"
  | unterminatedCharacter => "Unterminated character literal"
  | invalidNumber digits => s!"Invalid number '{digits}'"
  | expected what found => s!"Expected {what}, found {found.describe}"
  | listSize => "List size must be a positive integer"
  | voidList => "Lists of void are not allowed"
  | voidVariable => "'void' is only valid as a return type"
  | voidParameter => "Parameters cannot be void"
  | minusOperand => "Unary '-' is only supported before numeric literals"
  | unreadable path reason => s!"cannot read {path}: {reason}"

/-- What the rules of types ask for at some place. -/
inductive Requirement where
  | type (type : Ty)
  | plainReturn
  | printable
  | index
  | list
deriving Repr, DecidableEq, Inhabited

/-- The wording of a requirement. -/
def Requirement.describe : Requirement → String
  | type required => required.describe
  | plainReturn => "non-list return type"
  | printable => "printable value"
  | index => "int index"
  | list => "list"

/-- What is wrong with a call, or with the function that a program starts in. -/
inductive CallFault where
  | entryParameters (function : String)
  | argumentCount (function : String) (expected found : Nat)
  /-- The argument at `position`, counted from zero, has the wrong type. -/
  | argument (position : Nat) (function expected : String) (found : Ty)
deriving Repr, DecidableEq, Inhabited

/-- The wording of a faulty call. -/
def CallFault.message : CallFault → String
  | entryParameters function =>
    s!"entry function '{function}' must not take parameters"
  | argumentCount function expected found =>
    s!"'{function}' expects {expected} arguments, got {found}"
  | argument position function expected found =>
    s!"argument {position + 1} of '{function}' expects {expected}, got {found.describe}"

/-- The fields of a quadruple that can be filled in after it is emitted. -/
inductive Field where
  | left
  | result
deriving Repr, DecidableEq, Inhabited

/-- The field's name in diagnostics. -/
def Field.name : Field → String
  | left => "Operand1"
  | result => "Result"

/-- Why no code is generated although the program passed its checks. -/
inductive CodeFault where
  | noStorage (type : Ty)
  | noAddress (name : String)
  | missingFunction (function : String)
  | noEntry (function : String)
  | patchRange (index : Nat)
  | patchedTwice (index : Nat) (field : Field)
  | jumpUnderflow
  | openJumps (count : Nat)
deriving Repr, DecidableEq, Inhabited

/-- The wording of a fault in code generation. -/
def CodeFault.message : CodeFault → String
  | noStorage type => s!"cannot allocate storage for type {type.describe}"
  | noAddress name => s!"variable '{name}' has no address"
  | missingFunction function => s!"function '{function}' missing from directory"
  | noEntry function => s!"no entry address for function '{function}'"
  | patchRange index => s!"backpatch target {index} out of range"
  | patchedTwice index field => s!"quad {index} {field.name} already patched"
  | jumpUnderflow => "jump stack underflow"
  | openJumps count => s!"{count} unresolved jumps after emission"

/-- The parts of an object file that can be missing. -/
inductive ObjectPart where
  | codeCount
  | quad
  | constantCount
  | constant
deriving Repr, DecidableEq, Inhabited

/-- The part's name in diagnostics. -/
def ObjectPart.name : ObjectPart → String
  | codeCount => "quadruple count"
  | quad => "quadruple"
  | constantCount => "constant count"
  | constant => "constant"

/-- What is wrong with an object file. -/
inductive ObjectFault where
  | missing (part : ObjectPart)
  | invalidCount (part : ObjectPart)
  | fieldCount
  | unknownOperation (name : String)
  | invalidAddress (field : String)
  | constantShape
  | notConstant (address : Address)
  | trailing
deriving Repr, DecidableEq, Inhabited

/-- The wording of a fault in an object file. -/
def ObjectFault.message : ObjectFault → String
  | missing part => s!"missing {part.name}"
  | invalidCount part => s!"invalid {part.name}"
  | fieldCount => "expected 4 fields"
  | unknownOperation name => s!"unknown operation '{name}'"
  | invalidAddress field => s!"invalid address '{field}'"
  | constantShape => "expected '<literal> <address>'"
  | notConstant address => s!"{address} is not a constant address"
  | trailing => "trailing content"

/-- Why a program is refused.  Lines count from one; zero is no line. -/
inductive CompileError where
  | parse (fault : ParseFault) (line : Nat)
  | redeclared (name : String) (line : Nat)
  | undeclared (name : String) (line : Nat)
  | mismatch (expected : Requirement) (found : Ty) (line : Nat)
  | invalidOperation (operator : Operator) (left right : Ty)
  | invalidNegation (operand : Ty)
  | call (fault : CallFault) (line : Nat)
  | reserved (name : String) (line : Nat)
  | invalidAttribute (name : String) (type : Ty) (line : Nat)
  | exhausted (region : Region) (element : Element)
  | generation (fault : CodeFault)
  | object (fault : ObjectFault) (line : Nat)
deriving Repr, Inhabited

/-- The wording of a refusal. -/
def CompileError.message : CompileError → String
  | parse fault line => s!"Parse error at line {line}: {fault.message}"
  | redeclared name line => s!"Redeclaration of '{name}' at line {line}"
  | undeclared name line => s!"Undeclared identifier '{name}' at line {line}"
  | mismatch expected found line =>
    s!"Type mismatch at line {line}: expected {expected.describe}, found {found.describe}"
  | invalidOperation operator left right =>
    s!"Invalid operation '{operator.symbol}' for operand types {left.describe} and " ++
      right.describe
  | invalidNegation operand =>
    s!"Invalid operation '!' for operand types {operand.describe} and none"
  | call fault line => s!"Invalid call at line {line}: {fault.message}"
  | reserved name line =>
    s!"'{name}' at line {line} is reserved for a builtin function"
  | invalidAttribute name type line =>
    s!"Invalid attribute '{name}' for type {type.describe} at line {line}"
  | exhausted region element =>
    s!"Address space exhausted for {region.name} {element.keyword}"
  | generation fault => s!"Code generation error: {fault.message}"
  | object fault line =>
    s!"Malformed object file at line {line}: {fault.message}"

end Easel
