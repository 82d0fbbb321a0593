import Easel.Program

/-!
# Printing programs

A program is printed as the kinds of tokens that its text has.  A group is
written in parentheses.  Only where a group is a whole operand of a logical
operator and holds comparisons do they say nothing, since comparisons bind
tighter than logical operators; at each such place they may be left out.

A program is well formed if it can be the tree of some text: the operators of
each chain have one level, neither a variable nor a parameter nor an item of a
list is void, and lists have positive sizes.
-/

namespace Easel

/--
Where parentheses are left out.  A place in a tree is the list of steps that
lead to it from the root.
-/
def Choice : Type :=
  List Nat → Bool

namespace Choice

/-- Whether parentheses are left out at the root. -/
def here (choice : Choice) : Bool :=
  choice []

/-- The choice for the subtree behind one step. -/
def below (choice : Choice) (step : Nat) : Choice :=
  fun path => choice (step :: path)

end Choice

/-! ## Expressions -/

/-- The symbol of an operator. -/
def Operator.mark : Operator → Symbol
  | add => .plus
  | sub => .minus
  | mul => .star
  | div => .slash
  | less => .less
  | greater => .greater
  | equal => .equal
  | and => .and
  | or => .or

/-- The height up to which operands of the operator are not grouped. -/
def Operator.operandHeight (operator : Operator) : Nat :=
  min operator.level.rank 2

/-- A literal, with the sign of a negative number in front. -/
def Literal.print : Literal → List Kind
  | integer true magnitude => [.symbol .minus, .integer magnitude]
  | integer false magnitude => [.integer magnitude]
  | float value =>
    if Decimal.isNegative value then [.symbol .minus, .float (-value)]
    else [.float value]
  | char value => [.char value]
  | string value => [.string value]
  | bool true => [.keyword .true]
  | bool false => [.keyword .false]

/-- The attribute name behind a variable or an item, if there is one. -/
def printField : Option String → List Kind
  | none => []
  | some field => [.symbol .dot, .name field]

namespace Expr

/-- Whether the operator at the top of an expression compares. -/
def compares : Expr → Bool
  | binary operator _ _ => operator.level = .relation
  | _ => false

/--
How loosely the operator at the top of an expression binds; nothing binds
tighter than an expression without one.
-/
def height : Expr → Nat
  | binary operator _ _ => operator.level.rank + 1
  | _ => 0

mutual

/--
Print an expression.  The parentheses of a group can be left out if the group
is an operand of a logical operator, which `operand` says, and compares.
-/
def print (choice : Choice) (operand : Bool) : Expr → List Kind
  | literal value _ => value.print
  | access name field _ => .name name :: printField field
  | item name index field _ =>
    .name name :: .symbol .leftBracket :: index.print (choice.below 0) false ++
      .symbol .rightBracket :: printField field
  | call name arguments _ =>
    .name name :: .symbol .leftParen :: printList choice arguments ++
      [.symbol .rightParen]
  | not inner _ => .symbol .not :: inner.print (choice.below 0) false
  | group inner _ =>
    if operand && inner.compares && choice.here then
      inner.print (choice.below 0) false
    else .symbol .leftParen :: inner.print (choice.below 0) false ++
      [.symbol .rightParen]
  | binary operator left right =>
    let operand := operator.level = .logic
    left.print (choice.below 0) operand ++
      .symbol operator.mark :: right.print (choice.below 1) operand

def printList (choice : Choice) : List Expr → List Kind
  | [] => []
  | [last] => last.print (choice.below 0) false
  | first :: others =>
    first.print (choice.below 0) false ++ .symbol .comma ::
      printList (choice.below 1) others

end

mutual

/--
The operands of an operator bind tighter than it does, except that a chain of
its own level can stand on its left.  A comparison is no operand of a logical
operator, and what is negated has no operator of its own.
-/
def WellFormed : Expr → Prop
  | literal .. | access .. => True
  | item _ index _ _ => index.WellFormed
  | call _ arguments _ => ListWellFormed arguments
  | not inner _ => inner.height = 0 ∧ inner.WellFormed
  | group inner _ => inner.WellFormed
  | binary operator left right =>
    (left.height ≤ operator.operandHeight ∨
      left.height = operator.level.rank + 1) ∧
      right.height ≤ operator.operandHeight ∧ left.WellFormed ∧ right.WellFormed

def ListWellFormed : List Expr → Prop
  | [] => True
  | first :: others => first.WellFormed ∧ ListWellFormed others

end

mutual

/-- The expression with all lines forgotten. -/
def withoutLines : Expr → Expr
  | literal value _ => literal value 0
  | access name field _ => access name field 0
  | item name index field _ => item name index.withoutLines field 0
  | call name arguments _ => call name (listWithoutLines arguments) 0
  | not inner _ => not inner.withoutLines 0
  | group inner _ => group inner.withoutLines 0
  | binary operator left right =>
    binary operator left.withoutLines right.withoutLines

def listWithoutLines : List Expr → List Expr
  | [] => []
  | first :: others => first.withoutLines :: listWithoutLines others

end

end Expr

namespace Ty

def print (type : Ty) : List Kind :=
  if type.isList then
    [.type type.element, .symbol .leftBracket, .integer type.size,
      .symbol .rightBracket]
  else [.type type.element]

/-- The type of a single value, or of a list with items that are not void. -/
def WellFormed (type : Ty) : Prop :=
  type = .basic type.element ∨
    type = .list type.element type.size ∧ type.element ≠ .void ∧ 0 < type.size

end Ty

namespace Declaration

def print (declaration : Declaration) : List Kind :=
  declaration.type.print ++ [.name declaration.name]

/-- Neither a variable nor a parameter is void. -/
def WellFormed (declaration : Declaration) : Prop :=
  declaration.type.WellFormed ∧ declaration.type.isVoid = false

def withoutLines (declaration : Declaration) : Declaration :=
  { declaration with line := 0 }

def printList : List Declaration → List Kind
  | [] => []
  | [last] => last.print
  | first :: others => first.print ++ .symbol .comma :: printList others

end Declaration

/-! ## Statements -/

namespace Target

def print (choice : Choice) (target : Target) : List Kind :=
  match target.index with
  | none => .name target.name :: printField target.field
  | some index =>
    .name target.name :: .symbol .leftBracket :: index.print choice false ++
      .symbol .rightBracket :: printField target.field

def WellFormed (target : Target) : Prop :=
  ∀ index ∈ target.index, index.WellFormed

def withoutLines (target : Target) : Target :=
  { target with index := target.index.map Expr.withoutLines, line := 0 }

end Target

namespace Assignment

def print (choice : Choice) (assignment : Assignment) : List Kind :=
  assignment.target.print (choice.below 0) ++
    .symbol .assign :: assignment.value.print (choice.below 1) false

def WellFormed (assignment : Assignment) : Prop :=
  assignment.target.WellFormed ∧ assignment.value.WellFormed

def withoutLines (assignment : Assignment) : Assignment :=
  ⟨assignment.target.withoutLines, assignment.value.withoutLines, 0⟩

end Assignment

namespace Stmt

def printGuard (choice : Choice) (guard : Expr) : List Kind :=
  .symbol .leftParen :: guard.print choice false ++ [.symbol .rightParen]

/-- The head of a counting loop in parentheses. -/
def printHead (choice : Choice)
    (start : Assignment)
    (guard : Expr)
    (step : Assignment) : List Kind :=
  .symbol .leftParen :: start.print (choice.below 0) ++ .symbol .semicolon ::
    guard.print (choice.below 1) false ++ .symbol .semicolon ::
    step.print (choice.below 2) ++ [.symbol .rightParen]

mutual

def print (choice : Choice) : Stmt → List Kind
  | declare declaration =>
    .keyword .var :: declaration.print ++ [.symbol .semicolon]
  | assign assignment => assignment.print choice ++ [.symbol .semicolon]
  | branch guard body _ =>
    .keyword .if :: printGuard (choice.below 0) guard ++ .symbol .leftBrace ::
      printBody (choice.below 1) body
  | branchElse guard body otherwise _ =>
    .keyword .if :: printGuard (choice.below 0) guard ++ .symbol .leftBrace ::
      printBody (choice.below 1) body ++ .keyword .else :: .symbol .leftBrace ::
      printBody (choice.below 2) otherwise
  | whileLoop guard body _ =>
    .keyword .while :: printGuard (choice.below 0) guard ++
      .symbol .leftBrace :: printBody (choice.below 1) body
  | forLoop start guard step body _ =>
    .keyword .for :: printHead (choice.below 0) start guard step ++
      .symbol .leftBrace :: printBody (choice.below 1) body
  | write value _ =>
    .keyword .write :: value.print choice false ++ [.symbol .semicolon]
  | ret none _ => [.keyword .return, .symbol .semicolon]
  | ret (some value) _ =>
    .keyword .return :: value.print choice false ++ [.symbol .semicolon]
  | call name arguments line =>
    (Expr.call name arguments line).print choice false ++ [.symbol .semicolon]

/-- The statements of a block and the brace behind them. -/
def printBody (choice : Choice) : List Stmt → List Kind
  | [] => [.symbol .rightBrace]
  | first :: others =>
    first.print (choice.below 0) ++ printBody (choice.below 1) others

end

mutual

/-- Every declaration and expression of the statement is well formed. -/
def WellFormed : Stmt → Prop
  | declare declaration => declaration.WellFormed
  | assign assignment => assignment.WellFormed
  | branch guard body _ | whileLoop guard body _ =>
    guard.WellFormed ∧ BodyWellFormed body
  | branchElse guard body otherwise _ =>
    guard.WellFormed ∧ BodyWellFormed body ∧ BodyWellFormed otherwise
  | forLoop start guard step body _ =>
    start.WellFormed ∧ guard.WellFormed ∧ step.WellFormed ∧ BodyWellFormed body
  | write value _ => value.WellFormed
  | ret value _ => ∀ result ∈ value, result.WellFormed
  | call _ arguments _ => Expr.ListWellFormed arguments

def BodyWellFormed : List Stmt → Prop
  | [] => True
  | first :: others => first.WellFormed ∧ BodyWellFormed others

end

mutual

def withoutLines : Stmt → Stmt
  | declare declaration => declare declaration.withoutLines
  | assign assignment => assign assignment.withoutLines
  | branch guard body _ => branch guard.withoutLines (bodyWithoutLines body) 0
  | branchElse guard body otherwise _ =>
    branchElse guard.withoutLines (bodyWithoutLines body)
      (bodyWithoutLines otherwise) 0
  | whileLoop guard body _ =>
    whileLoop guard.withoutLines (bodyWithoutLines body) 0
  | forLoop start guard step body _ =>
    forLoop start.withoutLines guard.withoutLines step.withoutLines
      (bodyWithoutLines body) 0
  | write value _ => write value.withoutLines 0
  | ret value _ => ret (value.map Expr.withoutLines) 0
  | call name arguments _ => call name (Expr.listWithoutLines arguments) 0

def bodyWithoutLines : List Stmt → List Stmt
  | [] => []
  | first :: others => first.withoutLines :: bodyWithoutLines others

end

end Stmt

namespace Function

def print (choice : Choice) (function : Function) : List Kind :=
  .keyword .func :: function.returns.print ++ .name function.name ::
    .symbol .leftParen ::
      (Declaration.printList function.parameters ++ [.symbol .rightParen]) ++
    .symbol .leftBrace :: Stmt.printBody choice function.body

/-- Only what a function returns can be void. -/
structure WellFormed (function : Function) : Prop where
  returns : function.returns.WellFormed
  parameters : ∀ parameter ∈ function.parameters, parameter.WellFormed
  body : Stmt.BodyWellFormed function.body

def withoutLines (function : Function) : Function :=
  { function with
    parameters := function.parameters.map Declaration.withoutLines
    body := Stmt.bodyWithoutLines function.body
    line := 0 }

def printList (choice : Choice) : List Function → List Kind
  | [] => []
  | first :: others =>
    first.print (choice.below 0) ++ printList (choice.below 1) others

end Function

namespace Program

/-- Print a program, leaving out the parentheses that `choice` names. -/
def print (choice : Choice) (program : Program) : List Kind :=
  .keyword .program :: .name program.name :: .symbol .semicolon ::
    program.globals.flatMap (fun declaration =>
      .keyword .var :: declaration.print ++ [.symbol .semicolon]) ++
    Function.printList choice program.functions

structure WellFormed (program : Program) : Prop where
  globals : ∀ declaration ∈ program.globals, declaration.WellFormed
  functions : ∀ function ∈ program.functions, function.WellFormed

def withoutLines (program : Program) : Program :=
  { program with
    globals := program.globals.map Declaration.withoutLines
    functions := program.functions.map Function.withoutLines }

end Program

end Easel
