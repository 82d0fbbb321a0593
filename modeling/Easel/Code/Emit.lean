import Easel.Checked
import Easel.Code.Link
import Easel.Space

/-!
# Generating code

Code is generated function by function, statement by statement.  The jumps of
branches and loops are written with open targets, kept on a stack and filled
in when the block that they pass is complete; the positions of functions are
filled in at the end.  A field is filled in at most once.

Every operator and every call leaves its result in a temporary of its own.
Storage and links are threaded through in the order of the text.
-/

namespace Easel

/-- What generation has used up so far. -/
structure Draft where
  space : Space
  links : List Link
deriving Inhabited

/-- Generation of a piece of code. -/
abbrev Gen := StateT Draft (Except CompileError)

/-- Where a generated value lies, and its type. -/
structure Operand where
  address : Address
  type : Ty
deriving Repr, DecidableEq, Inhabited

namespace Gen

/-- Run a request for storage. -/
def allocate (request : Space → Except CompileError (Address × Space)) :
    Gen Address := do
  let draft ← get
  let (address, space) ← request draft.space
  set { draft with space := space }
  return address

/-- A new temporary. -/
def temp (type : Ty) : Gen Address :=
  allocate (·.nextTemp type)

/-- The slot of a literal. -/
def constant (value : Literal) : Gen Address :=
  allocate (·.intern value.text (.basic value.element))

/-- Record that a field waits for the position of a function. -/
def link (index : Nat) (field : Field) (target : String) : Gen Unit :=
  modify fun draft =>
    { draft with links := draft.links ++ [⟨index, field, target⟩] }

end Gen

/--
A program while its code is generated.  The jumps of a branch or a loop are
written before their targets are known.  The positions of those that wait,
and the positions that loops go back to, are kept with the innermost first.
-/
structure Sheet extends Draft where
  code : Array Quad
  jumps : List Nat
deriving Inhabited

/-- The sheet on which nothing is written yet. -/
def Sheet.blank (space : Space) : Sheet where
  space := space
  links := []
  code := #[]
  jumps := []

/-- Generation of a part of a program. -/
abbrev Build := StateT Sheet (Except CompileError)

/-- A jump whose target is still open. -/
def openJump (operation : Operation) (value : Address) : Quad :=
  ⟨operation, value, .unused, .unused⟩

namespace Build

/-- Generate a piece of code for the next position, and append it. -/
def piece {α : Type} (generate : Nat → Gen (α × List Quad)) : Build α := do
  let sheet ← get
  let ((value, code), draft) ← generate sheet.code.size sheet.toDraft
  set { sheet with toDraft := draft, code := sheet.code ++ code.toArray }
  return value

/-- Append code that has no value. -/
def lay (generate : Nat → Gen (List Quad)) : Build Unit :=
  piece fun start => return ((), ← generate start)

/--
The next position.  It is not cut to 32 bits here or in the targets and
entries made from it, which changes nothing up to `2 ^ 31` quadruples.
-/
def here : Build Nat :=
  return (← get).code.size

/-- Append a quadruple. -/
def append (quad : Quad) : Build Unit :=
  modify fun sheet => { sheet with code := sheet.code.push quad }

/-- Record that a field at the next position waits for that of a function. -/
def link (field : Field) (target : String) : Build Unit :=
  modify fun sheet =>
    { sheet with links := sheet.links ++ [⟨sheet.code.size, field, target⟩] }

/-- Keep a position until what starts there is complete. -/
def push (site : Nat) : Build Unit :=
  modify fun sheet => { sheet with jumps := site :: sheet.jumps }

/-- Append a jump with an open target, and keep its position. -/
def wait (operation : Operation) (value : Address) : Build Unit := do
  let site ← here
  append (openJump operation value)
  push site

/-- The innermost position that was kept. -/
def pop : Build Nat := do
  let sheet ← get
  match sheet.jumps with
  | [] => throw (.generation .jumpUnderflow)
  | site :: rest => do
    set { sheet with jumps := rest }
    return site

/-- Let a jump that waits lead to the next position. -/
def fill (site : Nat) : Build Unit := do
  let sheet ← get
  match patch site .result sheet.code.size sheet.code with
  | .ok _ code => set { sheet with code := code }
  | .error fault _ => throw fault

end Build

/-- The operation of an operator. -/
def Operator.operation : Operator → Operation
  | add => .add
  | sub => .sub
  | mul => .mult
  | div => .div
  | less => .less
  | greater => .greater
  | equal => .equal
  | and => .and
  | or => .or

/-- The address of a variable after storage is laid out. -/
def addressOf (name : String) (found : Variable) :
    Except CompileError Address :=
  match found.address with
  | some address => .ok address
  | none => .error (.generation (.noAddress name))

/-- The address of the designated storage, apart from the element of a list. -/
def Resolved.base (resolved : Resolved) (name : String) :
    Except CompileError Address := do
  let address ← addressOf name resolved.owner
  return address + (resolved.field.map Attribute.offset).getD 0

/-- Return the storage of a variable to its zero values. -/
def initQuad (address : Address) (type : Ty) : Quad :=
  ⟨.init, address, if type.isList then .wrap type.size else 1,
    type.element.code⟩

namespace Context

/-- The storage of a variable or of its attribute. -/
def emitAccess (context : Context)
    (name : String)
    (field : Option String)
    (line : Nat) : Gen Operand := do
  let resolved ← context.scope.resolve name false field line
  return ⟨← resolved.base name, resolved.type⟩

/--
Code that checks an index and computes the address of the element, or of its
attribute.  The operand is the temporary that holds the address, with the
type of what is stored there.
-/
def emitPointer (context : Context)
    (name : String)
    (index : Operand)
    (field : Option String)
    (line : Nat) : Gen (Operand × List Quad) := do
  let resolved ← context.scope.resolve name true field line
  let base ← resolved.base name
  let pointer ← Gen.temp (.basic .int)
  return (⟨pointer, resolved.type⟩,
    [⟨.checkBound, .wrap resolved.owner.type.size, .unused, index.address⟩,
      ⟨.addAddress, base, index.address, pointer⟩])

/-- Bring an argument to the type of its parameter. -/
def emitWidening (parameter : Ty) (argument : Operand) :
    Gen (Address × List Quad) := do
  if parameter.agrees argument.type then return (argument.address, [])
  else
    let widened ← Gen.temp parameter
    return (widened, [⟨.assign, argument.address, .unused, widened⟩])

/-- The number of list elements that an argument passes, if it is a list. -/
def argumentSize (type : Ty) : Address :=
  if type.isList then .wrap type.size else .unused

mutual

/-- Code for an expression at position `start`, and where its value lies. -/
def emitExpr (context : Context) (start : Nat) :
    Expr → Gen (Operand × List Quad)
  | .literal value _ => do
    return (⟨← Gen.constant value, .basic value.element⟩, [])
  | .access name field line => do
    return (← context.emitAccess name field line, [])
  | .item name index field line => do
    let (position, indexCode) ← context.emitExpr start index
    let (pointer, pointerCode) ← context.emitPointer name position field line
    let value ← Gen.temp pointer.type
    return (⟨value, pointer.type⟩, indexCode ++ pointerCode ++
      [⟨.assignIndexInverse, pointer.address, .unused, value⟩])
  | .call name arguments line =>
    match Builtin.find? name with
    | some builtin => do
      let (operands, code) ← context.emitOperands start 2 arguments
      let value ← Gen.temp (.basic builtin.returns)
      return (⟨value, .basic builtin.returns⟩, code ++
        [⟨builtin.operation, operands[0]?.getD .unused,
          operands[1]?.getD .unused, value⟩])
    | none =>
      match context.functions.find? name with
      | none => throw (.undeclared name line)
      | some routine => do
        let code ← context.emitArguments (start + 1) arguments
          routine.parameters
        let value ← Gen.temp routine.returns
        Gen.link (start + 1 + code.length) .left name
        return (⟨value, routine.returns⟩,
          ⟨.era, .wrap routine.footprint, .unused, .unused⟩ :: code ++
            [⟨.call, .unused, .unused, value⟩])
  | .not operand _ => do
    let (value, code) ← context.emitExpr start operand
    let type ← negationType value.type
    let negated ← Gen.temp type
    return (⟨negated, type⟩, code ++ [⟨.not, value.address, .unused, negated⟩])
  | .group inner _ => context.emitExpr start inner
  | .binary operator left right => do
    let (leftValue, leftCode) ← context.emitExpr start left
    let (rightValue, rightCode) ←
      context.emitExpr (start + leftCode.length) right
    let type ← operatorType operator leftValue.type rightValue.type
    let value ← Gen.temp type
    return (⟨value, type⟩, leftCode ++ rightCode ++
      [⟨operator.operation, leftValue.address, rightValue.address, value⟩])

/-- Code for the first `count` expressions, and where their values lie. -/
def emitOperands (context : Context) (start count : Nat) :
    List Expr → Gen (List Address × List Quad)
  | [] => return ([], [])
  | first :: rest =>
    match count with
    | 0 => return ([], [])
    | count + 1 => do
      let (value, code) ← context.emitExpr start first
      let (values, others) ← context.emitOperands (start + code.length)
        count rest
      return (value.address :: values, code ++ others)

/-- Code that passes arguments to parameters, from left to right. -/
def emitArguments (context : Context) (start : Nat) :
    List Expr → List Ty → Gen (List Quad)
  | [], _ => return []
  | argument :: arguments, parameters =>
    match parameters with
    | [] => return []
    | parameter :: parameters => do
      let (value, code) ← context.emitExpr start argument
      let (address, widening) ← emitWidening parameter value
      let passing := code ++ widening ++
        [⟨.param, address, argumentSize value.type, .unused⟩]
      let others ← context.emitArguments (start + passing.length)
        arguments parameters
      return passing ++ others

end

/-- Code for an assignment: the value first, then the index of its target. -/
def emitAssignment (context : Context) (start : Nat) (assignment : Assignment) :
    Gen (List Quad) := do
  let target := assignment.target
  let (value, valueCode) ← context.emitExpr start assignment.value
  match target.index with
  | some index => do
    let (position, indexCode) ←
      context.emitExpr (start + valueCode.length) index
    let (pointer, pointerCode) ←
      context.emitPointer target.name position target.field target.line
    return valueCode ++ indexCode ++ pointerCode ++
      [⟨.assignIndex, value.address, .unused, pointer.address⟩]
  | none => do
    let place ← context.emitAccess target.name target.field target.line
    return valueCode ++ [⟨.assign, value.address, .unused, place.address⟩]

/-- A jump to a position; as in `Build.here`, it is not cut to 32 bits. -/
def jump (target : Nat) : Quad :=
  ⟨.goto, .unused, .unused, target⟩

/--
Code for the guard of a branch or a loop, and a jump behind it that waits for
the end of what it guards.
-/
def buildGuard (context : Context) (guard : Expr) : Build Unit := do
  let value ← Build.piece (context.emitExpr · guard)
  Build.wait .gotoFalse value.address

/-- Code for a loop: its guard, what it repeats, and the jump back. -/
def buildLoop (context : Context) (guard : Expr) (inside : Build Unit) :
    Build Unit := do
  Build.push (← Build.here)
  context.buildGuard guard
  inside
  let exit ← Build.pop
  let top ← Build.pop
  Build.append (jump top)
  Build.fill exit

/-- Code for an assignment. -/
def buildAssignment (context : Context) (assignment : Assignment) :
    Build Unit :=
  Build.lay (context.emitAssignment · assignment)

mutual

/-- Code for a statement. -/
def buildStmt (context : Context) : Stmt → Build Unit
  | .declare declaration =>
    match context.scope.locals.find? declaration.name with
    | none => throw (.undeclared declaration.name declaration.line)
    | some found => do
      let address ← addressOf declaration.name found
      Build.append (initQuad address found.type)
  | .assign assignment => context.buildAssignment assignment
  | .branch guard body _ => do
    context.buildGuard guard
    context.buildBlock body
    Build.fill (← Build.pop)
  | .branchElse guard body otherwise _ => do
    context.buildGuard guard
    context.buildBlock body
    let untaken ← Build.pop
    Build.wait .goto .unused
    Build.fill untaken
    context.buildBlock otherwise
    Build.fill (← Build.pop)
  | .whileLoop guard body _ =>
    context.buildLoop guard (context.buildBlock body)
  | .forLoop first guard step body _ => do
    context.buildAssignment first
    context.buildLoop guard do
      context.buildBlock body
      context.buildAssignment step
  | .write value _ => do
    let printed ← Build.piece (context.emitExpr · value)
    Build.append ⟨.print, .unused, .unused, printed.address⟩
  | .ret none _ => Build.append ⟨.ret, .unused, .unused, .unused⟩
  | .ret (some value) _ => do
    let returned ← Build.piece (context.emitExpr · value)
    Build.append ⟨.ret, .unused, .unused, returned.address⟩
  | .call name arguments line => do
    let _ ← Build.piece (context.emitExpr · (.call name arguments line))

/-- Code for the statements of a block, one after the other. -/
def buildBlock (context : Context) : List Stmt → Build Unit
  | [] => return
  | statement :: rest => do
    context.buildStmt statement
    context.buildBlock rest

end

end Context

/-! ## Storage of variables -/

/-- Give each variable of a table its address, in order. -/
def placeVariables (region : Region) :
    List (String × Variable) →
      StateT Space (Except CompileError) (List (String × Variable))
  | [] => return []
  | (name, found) :: rest => do
    let (address, space) ← (← get).next region found.type
    set space
    let others ← placeVariables region rest
    return (name, { found with address := some address }) :: others

/-- Lay out the parameters and variables of a function. -/
def placeRoutine (routine : Routine) :
    StateT Space (Except CompileError) Routine := do
  modify (·.reset .local)
  let placed ← placeVariables .local routine.locals.entries
  return { routine with locals := ⟨placed⟩, footprint := (← get).footprint }

/-- Lay out every function; local storage is shared between them. -/
def placeRoutines :
    List (String × Routine) →
      StateT Space (Except CompileError) (List (String × Routine))
  | [] => return []
  | (name, routine) :: rest => do
    let placed ← placeRoutine routine
    let others ← placeRoutines rest
    return (name, placed) :: others

/-- Lay out all functions, then the global variables. -/
def Checked.place (checked : Checked) :
    StateT Space (Except CompileError) Checked := do
  let functions ← placeRoutines checked.functions.entries
  modify (·.reset .local)
  let globals ← placeVariables .global checked.globals.entries
  return { checked with functions := ⟨functions⟩, globals := ⟨globals⟩ }

/-! ## Whole programs -/

/-- Code that returns every global variable to its zero value. -/
def emitGlobals : List (String × Variable) → Except CompileError (List Quad)
  | [] => .ok []
  | (name, found) :: rest => do
    let address ← addressOf name found
    let others ← emitGlobals rest
    return initQuad address found.type :: others

/-- Code for a function: its body, and a return of the zero value at the end. -/
def buildFunction (functions : Table Routine)
    (globals : Table Variable)
    (function : Function) : Build Unit :=
  match functions.find? function.name with
  | none => throw (.generation (.missingFunction function.name))
  | some routine => do
    modify fun sheet => { sheet with space := sheet.space.reset .temp }
    let context : Context :=
      ⟨functions, ⟨routine.locals, globals⟩, routine.returns⟩
    context.buildBlock function.body
    let zero := (← get).space.zeroAddress routine.returns
    Build.append ⟨.ret, .unused, .unused, zero⟩

/-- Code for all functions, one after the other, and the position of each. -/
def buildFunctions (functions : Table Routine) (globals : Table Variable) :
    List Function → Build (List (String × Nat))
  | [] => return []
  | function :: rest => do
    let start ← Build.here
    buildFunction functions globals function
    let entries ← buildFunctions functions globals rest
    return (function.name, start) :: entries

/-- Record the positions of functions, which are not cut to 32 bits. -/
def setEntries (functions : Table Routine) (entries : List (String × Nat)) :
    Table Routine :=
  entries.foldl (fun table (name, start) =>
    table.modify name fun routine =>
      { routine with entry := some (start : Int) }) functions

/--
The code of a program whose storage is laid out: global variables are set to
their zero values, then a jump leads to the function that the program starts
in, and all functions follow in the order of the text.
-/
def Checked.build (checked : Checked) : Build (Table Routine) := do
  Build.lay fun _ => emitGlobals checked.globals.entries
  Build.link .result checked.entry
  Build.append (openJump .goto .unused)
  let entries ← buildFunctions checked.functions checked.globals
    checked.program.functions
  return setEntries checked.functions entries

/-- The position of a function, if it is known. -/
def entryOf (functions : Table Routine) (name : String) : Option Address :=
  (functions.find? name).bind (·.entry)

/-- Generate the code of a checked program in what is left of a space. -/
def Checked.generateIn (checked : Checked) (space : Space) :
    Except CompileError Executable := do
  let (placed, space) ← checked.place.run space
  let (functions, sheet) ← placed.build.run (.blank space)
  match resolveLinks (entryOf functions) sheet.links sheet.code with
  | .error fault _ => .error fault
  | .ok _ linked =>
    if sheet.jumps.isEmpty then return ⟨linked, sheet.space.constants⟩
    else .error (.generation (.openJumps sheet.jumps.length))

/-- Generate the code of a checked program. -/
def Checked.generate (checked : Checked) : Except CompileError Executable :=
  checked.generateIn .fresh

end Easel
