import Easel.Builtin
import Easel.Program
import Easel.Scope

/-!
# Checked programs

Checking a program builds the tables of its variables and functions and then
walks through every function body.  The walk follows the text: a local
variable can be used only after its declaration has been passed, and the
types of operands, arguments, guards and assigned values have to fit.
-/

namespace Easel

/-- A program that passed its checks, with the tables that they built. -/
structure Checked where
  program : Program
  functions : Table Routine
  globals : Table Variable
  /-- The function that the program starts in. -/
  entry : String
deriving Repr, Inhabited

/-! ## Declarations -/

mutual

/-- The variables that a statement declares, in the order of the text. -/
def Stmt.declarations : Stmt → List Declaration
  | .declare declaration => [declaration]
  | .branch _ body _ | .whileLoop _ body _ | .forLoop _ _ _ body _ =>
    declarationsOf body
  | .branchElse _ body otherwise _ =>
    declarationsOf body ++ declarationsOf otherwise
  | .assign _ | .write .. | .ret .. | .call .. => []

/-- The variables that a block declares, in the order of the text. -/
def declarationsOf : List Stmt → List Declaration
  | [] => []
  | statement :: rest => statement.declarations ++ declarationsOf rest

end

/-- Add a declared variable to a table. -/
def declareIn (table : Table Variable) (declaration : Declaration) :
    Except CompileError (Table Variable) :=
  if Builtin.isReserved declaration.name then
    .error (.reserved declaration.name declaration.line)
  else
    match table.add? declaration.name
      ⟨declaration.type, declaration.line, none⟩ with
    | some extended => .ok extended
    | none => .error (.redeclared declaration.name declaration.line)

/-- The table of a list of declarations. -/
def declareAll (declarations : List Declaration) :
    Except CompileError (Table Variable) :=
  declarations.foldlM declareIn Table.empty

/-- Add a function to the table of functions. -/
def declareFunction (table : Table Routine) (function : Function) :
    Except CompileError (Table Routine) :=
  if Builtin.isReserved function.name then
    .error (.reserved function.name function.line)
  else if function.returns.isList then
    .error (.mismatch .plainReturn function.returns function.line)
  else do
    let locals ← declareAll
      (function.parameters ++ declarationsOf function.body)
    let routine : Routine :=
      ⟨function.returns, function.line, function.parameters.map (·.type),
        locals, none, 0⟩
    match table.add? function.name routine with
    | some extended => return extended
    | none => .error (.redeclared function.name function.line)

/-- The function that a program starts in exists and takes no parameters. -/
def checkEntry (functions : Table Routine) (entry : String) :
    Except CompileError Unit :=
  match functions.find? entry with
  | none => .error (.undeclared entry 0)
  | some routine =>
    if routine.parameters.isEmpty then .ok ()
    else .error (.call (.entryParameters entry) routine.line)

/-! ## Types of expressions -/

/-- What is known while the body of one function is checked. -/
structure Context where
  functions : Table Routine
  scope : Scope
  returns : Ty
deriving Repr, Inhabited

/-- The type of an operator's result. -/
def operatorType (operator : Operator) (left right : Ty) :
    Except CompileError Ty :=
  match operator.type? left right with
  | some type => .ok type
  | none => .error (.invalidOperation operator left right)

/-- The type of a negation. -/
def negationType (operand : Ty) : Except CompileError Ty :=
  match Operator.negation? operand with
  | some type => .ok type
  | none => .error (.invalidNegation operand)

/-- The number of arguments is the number of parameters. -/
def checkCount (name : String) (expected found line : Nat) :
    Except CompileError Unit :=
  if expected = found then .ok ()
  else .error (.call (.argumentCount name expected found) line)

/-- Whether a parameter takes an argument; lists are passed whole. -/
def takesArgument (parameter : Ty) (argument : Expr) (type : Ty) : Bool :=
  if parameter.isList then
    parameter.agrees type && parameter.size == type.size &&
      argument.isPlainVariable
  else parameter.accepts type

/-- The first argument that does not fit, if there is one. -/
def checkArguments (name : String) (line : Nat) :
    Nat → List (String × Bool × Ty) → Except CompileError Unit
  | _, [] => .ok ()
  | position, (expected, fits, type) :: rest =>
    if fits then checkArguments name line (position + 1) rest
    else .error (.call (.argument position name expected type) line)

namespace Context

/-- A local variable can be used only after its declaration. -/
def checkDeclared (context : Context)
    (declared : List String)
    (name : String)
    (line : Nat) : Except CompileError Unit :=
  if context.scope.locals.contains name && !declared.contains name then
    .error (.undeclared name line)
  else .ok ()

/-- The type of the storage that a name designates. -/
def placeType (context : Context)
    (declared : List String)
    (name : String)
    (indexed : Bool)
    (field : Option String)
    (line : Nat) : Except CompileError Ty := do
  context.checkDeclared declared name line
  let resolved ← context.scope.resolve name indexed field line
  return resolved.type

/-- An index is a whole number. -/
def checkIndex (type : Ty) (line : Nat) : Except CompileError Unit :=
  if type.agrees (.basic .int) then .ok ()
  else .error (.mismatch .index type line)

/-- The type of a call, given the types of its arguments. -/
def callType (context : Context)
    (name : String)
    (arguments : List Expr)
    (types : List Ty)
    (line : Nat) : Except CompileError Ty :=
  match Builtin.find? name with
  | some builtin => do
    checkCount name builtin.parameters.length types.length line
    checkArguments name line 0 <| (builtin.parameters.zip types).map
        fun (kind, type) =>
      (kind.describe, kind.accepts type, type)
    return .basic builtin.returns
  | none =>
    match context.functions.find? name with
    | none => .error (.undeclared name line)
    | some routine => do
      checkCount name routine.parameters.length types.length line
      checkArguments name line 0 <|
        (routine.parameters.zip (arguments.zip types)).map
        fun (parameter, argument, type) =>
          (parameter.describe, takesArgument parameter argument type, type)
      return routine.returns

mutual

/-- The type of an expression, given the local variables declared so far. -/
def typeOf (context : Context) (declared : List String) :
    Expr → Except CompileError Ty
  | .literal value _ => .ok (.basic value.element)
  | .access name field line => context.placeType declared name false field line
  | .item name index field line => do
    checkIndex (← context.typeOf declared index) line
    context.placeType declared name true field line
  | .call name arguments line => do
    let types ← context.typesOf declared arguments
    context.callType name arguments types line
  | .not operand _ => do negationType (← context.typeOf declared operand)
  | .group inner _ => context.typeOf declared inner
  | .binary operator left right => do
    let leftType ← context.typeOf declared left
    let rightType ← context.typeOf declared right
    operatorType operator leftType rightType

/-- The types of a list of expressions, from left to right. -/
def typesOf (context : Context) (declared : List String) :
    List Expr → Except CompileError (List Ty)
  | [] => .ok []
  | first :: rest => do
    let type ← context.typeOf declared first
    let types ← context.typesOf declared rest
    return type :: types

end

/-! ## Statements -/

/-- The type of an assignment's target. -/
def targetType (context : Context) (declared : List String) (target : Target) :
    Except CompileError Ty := do
  match target.index with
  | some index => checkIndex (← context.typeOf declared index) target.line
  | none => pure ()
  context.placeType declared target.name target.index.isSome
    target.field target.line

/-- The value of an assignment fits its target, and lists are not assigned. -/
def checkAssignment (context : Context)
    (declared : List String)
    (assignment : Assignment) : Except CompileError Unit := do
  let target ← context.targetType declared assignment.target
  let value ← context.typeOf declared assignment.value
  if target.isList || !target.accepts value then
    .error (.mismatch (.type target) value assignment.line)
  else return ()

/-- A guard is a truth value. -/
def checkGuard (context : Context)
    (declared : List String)
    (guard : Expr)
    (line : Nat) : Except CompileError Unit := do
  let type ← context.typeOf declared guard
  if type.agrees (.basic .bool) then return ()
  else .error (.mismatch (.type (.basic .bool)) type line)

/-- A function returns what it declares to return. -/
def checkReturn (context : Context)
    (declared : List String)
    (value : Option Expr)
    (line : Nat) : Except CompileError Unit :=
  match value with
  | none =>
    if context.returns.isVoid then .ok ()
    else .error (.mismatch (.type context.returns) (.basic .void) line)
  | some value => do
    let type ← context.typeOf declared value
    if context.returns.isVoid || !context.returns.accepts type then
      .error (.mismatch (.type context.returns) type line)
    else return ()

/-- A single value can be printed. -/
def checkWrite (context : Context)
    (declared : List String)
    (value : Expr)
    (line : Nat) : Except CompileError Unit := do
  let type ← context.typeOf declared value
  if type.isVoid || type.isList then .error (.mismatch .printable type line)
  else return ()

mutual

/-- Check a statement; the result is what is declared after it. -/
def checkStmt (context : Context) (declared : List String) :
    Stmt → Except CompileError (List String)
  | .declare declaration => .ok (declaration.name :: declared)
  | .assign assignment => do
    context.checkAssignment declared assignment
    return declared
  | .branch guard body line => do
    context.checkGuard declared guard line
    context.checkBlock declared body
  | .branchElse guard body otherwise line => do
    context.checkGuard declared guard line
    let declared ← context.checkBlock declared body
    context.checkBlock declared otherwise
  | .whileLoop guard body line => do
    context.checkGuard declared guard line
    context.checkBlock declared body
  | .forLoop start guard step body line => do
    context.checkAssignment declared start
    context.checkGuard declared guard line
    context.checkAssignment declared step
    context.checkBlock declared body
  | .write value line => do
    context.checkWrite declared value line
    return declared
  | .ret value line => do
    context.checkReturn declared value line
    return declared
  | .call name arguments line => do
    let types ← context.typesOf declared arguments
    let _ ← context.callType name arguments types line
    return declared

/-- Check the statements of a block in order. -/
def checkBlock (context : Context) (declared : List String) :
    List Stmt → Except CompileError (List String)
  | [] => .ok declared
  | statement :: rest => do
    let declared ← context.checkStmt declared statement
    context.checkBlock declared rest

end

end Context

/-- Check the body of a function against the tables. -/
def checkFunction (functions : Table Routine)
    (globals : Table Variable)
    (function : Function) : Except CompileError Unit :=
  match functions.find? function.name with
  | none => .error (.generation (.missingFunction function.name))
  | some routine => do
    let context : Context :=
      ⟨functions, ⟨routine.locals, globals⟩, routine.returns⟩
    let _ ← context.checkBlock (function.parameters.map (·.name)) function.body
    return ()

/-- Check a program that starts in the function `entry`. -/
def Program.check (program : Program) (entry : String) :
    Except CompileError Checked := do
  let globals ← declareAll program.globals
  let functions ← program.functions.foldlM declareFunction Table.empty
  checkEntry functions entry
  program.functions.forM (checkFunction functions globals)
  return ⟨program, functions, globals, entry⟩

end Easel
