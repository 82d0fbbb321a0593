import Easel.Operator
import Easel.Text.Quoted
import Easel.Token

/-!
# Expressions

An expression is a tree of operators over literals, places of storage and
calls.  Parentheses are kept as groups, since they decide nothing about the
value but show in the tree.  Every leaf, negation and group knows its line,
and a compound expression starts where its first operand does.

Operators come in four levels of precedence.  The operators of one level
associate to the left, so a chain of them is a tree that leans to the left.
-/

namespace Easel

/-- A literal of the source text. -/
inductive Literal where
  /-- A whole number with an optional minus sign in front. -/
  | integer (negative : Bool) (magnitude : Nat)
  | float (value : Float)
  | char (value : Char)
  | string (value : String)
  | bool (value : Bool)
deriving Repr, Inhabited

namespace Literal

/-- The type of a literal. -/
def element : Literal → Element
  | integer .. => .int
  | float _ => .float
  | char _ => .char
  | string _ => .string
  | bool _ => .bool

/-- The one spelling under which a literal is stored as a constant. -/
def text : Literal → String
  | integer negative magnitude =>
    (if negative then "-" else "") ++ toString magnitude
  | float value => literalLayout.write value
  | char value => Text.quoteChar value
  | string value => Text.quoteString value
  | bool value => if value then "true" else "false"

end Literal

/-- An expression. -/
inductive Expr where
  | literal (value : Literal) (line : Nat)
  /-- A variable or an attribute of one. -/
  | access (name : String) (field : Option String) (line : Nat)
  /-- An element of a list or an attribute of one. -/
  | item (name : String) (index : Expr) (field : Option String) (line : Nat)
  | call (name : String) (arguments : List Expr) (line : Nat)
  | not (operand : Expr) (line : Nat)
  | group (inner : Expr) (line : Nat)
  | binary (operator : Operator) (left right : Expr)
deriving Repr, Inhabited

namespace Expr

/-- The line of the first token of an expression. -/
def line : Expr → Nat
  | literal _ line | access _ _ line | item _ _ _ line | call _ _ line => line
  | not _ line | group _ line => line
  | binary _ left _ => left.line

/-- Whether the expression is a variable, however often it is grouped. -/
def isPlainVariable : Expr → Bool
  | access _ none _ => true
  | group inner _ => inner.isPlainVariable
  | _ => false

end Expr

/-- The levels of precedence, from the loosest to the tightest. -/
inductive Level where
  | logic
  | relation
  | sum
  | product
deriving Repr, DecidableEq, Inhabited

/-- The level of an operator. -/
def Operator.level : Operator → Level
  | and | or => .logic
  | less | greater | equal => .relation
  | add | sub => .sum
  | mul | div => .product

namespace Level

/-- How tightly the level binds, counted from the tightest. -/
@[simp]
def rank : Level → Nat
  | logic => 3
  | relation => 2
  | sum => 1
  | product => 0

theorem rank_le (level : Level) : level.rank ≤ 3 := by
  cases level <;> decide

/-- The operator that a symbol denotes at the level. -/
def operator? : Level → Symbol → Option Operator
  | logic, .and => some .and
  | logic, .or => some .or
  | relation, .less => some .less
  | relation, .greater => some .greater
  | relation, .equal => some .equal
  | sum, .plus => some .add
  | sum, .minus => some .sub
  | product, .star => some .mul
  | product, .slash => some .div
  | _, _ => none

/-- A comparison is grouped before a logical operator takes it. -/
def wrap : Level → Expr → Expr
  | logic, operand@(.binary operator ..) =>
    if operator.level = relation then .group operand operand.line else operand
  | _, operand => operand

/-- Join two operands at the level. -/
def join (level : Level) (operator : Operator) (left right : Expr) : Expr :=
  .binary operator (level.wrap left) (level.wrap right)

end Level

namespace Expr

/--
The operands and operators of the chain at the top of an expression, as far
as its operators pass a test.
-/
def chain (test : Operator → Bool) : Expr → List Expr × List Operator
  | binary operator left right =>
    if test operator then
      let (operands, operators) := chain test left
      (operands ++ [right], operators ++ [operator])
    else ([binary operator left right], [])
  | operand => ([operand], [])

/-- The chain of comparisons or logical operators at the top. -/
def tests (expression : Expr) : List Expr × List Operator :=
  expression.chain fun operator => operator.level = .logic ∨
    operator.level = .relation

/-- The chain of sums and differences at the top of an operand of a test. -/
def summands (expression : Expr) : List Expr × List Operator :=
  expression.chain fun operator => operator.level = .sum

/-- The chain of products and quotients at the top of a summand. -/
def factors (expression : Expr) : List Expr × List Operator :=
  expression.chain fun operator => operator.level = .product

end Expr

end Easel
