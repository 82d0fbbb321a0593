import Easel.Proofs.Code.Backpatching
import Easel.Proofs.Placement

/-!
# The layout of code

The relations of this module say what code there is for an expression, an
assignment or a statement, from which point of a program to which.  They are
independent of how code is generated: a point is a position together with
the temporaries in use, and every rule names the quadruples at the positions
in between, the storage that they refer to and the types that make them fit.
-/

namespace Easel

/-- A program that was linked. -/
structure Image where
  code : Array Quad
  constants : List Constant
  /-- The fields that were filled in. -/
  links : List Link
  /-- The positions of functions. -/
  entryOf : String → Option Address

/-- A position in code, and the slots of temporaries that are in use there. -/
structure Point where
  position : Nat
  temps : Element → Nat

def Point.next (point : Point) : Point :=
  { point with position := point.position + 1 }

/-- The quadruple at a position of the code. -/
def Image.Has (image : Image) (position : Nat) (quad : Quad) : Prop :=
  image.code[position]? = some quad

/-- The distance of the designated storage from its variable or item. -/
def Resolved.offset (resolved : Resolved) : Nat :=
  (resolved.field.map Attribute.offset).getD 0

/-- Storage that a use designates, with the place of its variable. -/
structure Context.Designates (context : Context)
    (name : String)
    (indexed : Bool)
    (field : Option String)
    (resolved : Resolved)
    (first : Address)
    (location : Location) : Prop where
  named : ∃ line, context.scope.resolve name indexed field line = .ok resolved
  address : resolved.owner.address = some first
  place : Place first resolved.owner.type location
  fits : resolved.owner.type.Fits
  writable : location.region = .local ∨ location.region = .global

/-! ## Expressions -/

/-- What a piece of code that computes values is for. -/
inductive Phrase where
  /-- An expression, and where its value lies. -/
  | value (expression : Expr) (operand : Operand)
  /-- The operands of a built-in function. -/
  | operands (expressions : List Expr) (operands : List Operand)
  /-- The arguments of a call for parameters of the given types. -/
  | arguments (expressions : List Expr) (parameters : List Ty)

/-- The instruction of a built-in function. -/
def Builtin.quad (builtin : Builtin)
    (operands : List Operand)
    (result : Address) : Quad :=
  ⟨builtin.operation, (operands.map (·.address))[0]?.getD .unused,
    (operands.map (·.address))[1]?.getD .unused, result⟩

/-- Every operand is of a type that its parameter accepts. -/
def Builtin.Takes (builtin : Builtin) (operands : List Operand) : Prop :=
  operands.length = builtin.parameters.length ∧
    ∀ (index : Nat) (kind : ParameterKind) (operand : Operand),
      builtin.parameters[index]? = some kind → operands[index]? = some operand →
        kind.accepts operand.type = true

/-- Where an argument lies once it has the type of its parameter. -/
inductive Widening (image : Image) (parameter : Ty) (argument : Operand) :
    Address → Point → Point → Prop where
  | same {point : Point} (agrees : parameter.agrees argument.type = true) :
      Widening image parameter argument argument.address point point
  | widened {point : Point} {address : Address} {temps : Element → Nat}
      (differs : parameter.agrees argument.type = false)
      (fresh : Space.Fresh point.temps parameter address temps)
      (assign : image.Has point.position
        ⟨.assign, argument.address, .unused, address⟩) :
      Widening image parameter argument address point ⟨point.position + 1,
        temps⟩

/-- Code that checks an index and stores the address of the item or part. -/
structure PointerCode (image : Image)
    (context : Context)
    (name : String)
    (field : Option String)
    (index : Operand)
    (resolved : Resolved)
    (pointer : Address)
    (start : Point)
    (stop : Point) : Prop where
  whole : index.type.agrees (.basic .int) = true
  designated : ∃ first location,
    context.Designates name true field resolved first location ∧
      image.Has (start.position + 1)
        ⟨.addAddress, first + resolved.offset, index.address, pointer⟩
  check : image.Has start.position
    ⟨.checkBound, .wrap resolved.owner.type.size, .unused, index.address⟩
  position : stop.position = start.position + 2
  fresh : Space.Fresh start.temps (.basic .int) pointer stop.temps

/-- The code for a phrase, from one point to another. -/
inductive ExprCode (image : Image) (context : Context) :
    Phrase → Point → Point → Prop where
  | literal {value : Literal} {line : Nat} {address : Address} {point : Point}
      {offset : Nat}
      (known : ⟨value.text, value.element, address⟩ ∈ image.constants)
      (place : Place address (.basic value.element)
        ⟨.constant, value.element, offset⟩) :
      ExprCode image context
        (.value (.literal value line) ⟨address, .basic value.element⟩)
        point point
  | access {name : String} {field : Option String} {line : Nat}
      {resolved : Resolved}
      {first : Address} {location : Location} {point : Point}
      (designates : context.Designates name false field resolved
        first location) :
      ExprCode image context
        (.value (.access name field line) ⟨first + resolved.offset,
          resolved.type⟩) point point
  | item {name : String} {index : Expr} {field : Option String} {line : Nat}
      {position : Operand} {resolved : Resolved} {pointer value : Address}
      {start afterIndex afterPointer : Point} {temps : Element → Nat}
      (indexed : ExprCode image context (.value index position)
        start afterIndex)
      (pointed : PointerCode image context name field position resolved pointer
        afterIndex afterPointer)
      (fresh : Space.Fresh afterPointer.temps resolved.type value temps)
      (load : image.Has afterPointer.position
        ⟨.assignIndexInverse, pointer, .unused, value⟩) :
      ExprCode image context
        (.value (.item name index field line) ⟨value, resolved.type⟩) start
        ⟨afterPointer.position + 1, temps⟩
  | builtin {name : String} {arguments : List Expr} {line : Nat}
      {builtin : Builtin}
      {operands : List Operand} {value : Address} {start stop : Point}
      {temps : Element → Nat} (found : Builtin.find? name = some builtin)
      (computed : ExprCode image context (.operands arguments operands)
        start stop)
      (takes : builtin.Takes operands)
      (fresh : Space.Fresh stop.temps (.basic builtin.returns) value temps)
      (apply : image.Has stop.position (builtin.quad operands value)) :
      ExprCode image context
        (.value (.call name arguments line) ⟨value, .basic builtin.returns⟩)
        start ⟨stop.position + 1, temps⟩
  | call {name : String} {arguments : List Expr} {line : Nat}
      {routine : Routine}
      {entry value : Address} {start stop : Point} {temps : Element → Nat}
      (user : Builtin.find? name = none)
      (found : context.functions.find? name = some routine)
      (located : image.entryOf name = some entry)
      (announce : image.Has start.position
        ⟨.era, .wrap routine.footprint, .unused, .unused⟩)
      (passed : ExprCode image context (.arguments arguments routine.parameters)
        start.next stop)
      (fresh : Space.Fresh stop.temps routine.returns value temps)
      (enter : image.Has stop.position ⟨.call, entry, .unused, value⟩) :
      ExprCode image context
        (.value (.call name arguments line) ⟨value, routine.returns⟩) start
        ⟨stop.position + 1, temps⟩
  | not {operand : Expr} {line : Nat} {value : Operand} {negated : Address}
      {start stop : Point} {temps : Element → Nat}
      (computed : ExprCode image context (.value operand value) start stop)
      (truth : value.type.agrees (.basic .bool) = true)
      (fresh : Space.Fresh stop.temps (.basic .bool) negated temps)
      (negate : image.Has stop.position
        ⟨.not, value.address, .unused, negated⟩) :
      ExprCode image context
        (.value (.not operand line) ⟨negated, .basic .bool⟩) start
        ⟨stop.position + 1, temps⟩
  | group {inner : Expr} {line : Nat} {operand : Operand} {start stop : Point}
      (computed : ExprCode image context (.value inner operand) start stop) :
      ExprCode image context (.value (.group inner line) operand) start stop
  | binary {operator : Operator} {left right : Expr}
      {leftValue rightValue : Operand}
      {element : Element} {value : Address} {start between stop : Point}
      {temps : Element → Nat}
      (leftCode : ExprCode image context (.value left leftValue) start between)
      (rightCode : ExprCode image context (.value right rightValue)
        between stop)
      (typed : operator.type? leftValue.type rightValue.type =
        some (.basic element))
      (fresh : Space.Fresh stop.temps (.basic element) value temps)
      (apply : image.Has stop.position
        ⟨operator.operation, leftValue.address, rightValue.address, value⟩) :
      ExprCode image context
        (.value (.binary operator left right) ⟨value, .basic element⟩) start
        ⟨stop.position + 1, temps⟩
  | noOperands {point : Point} :
      ExprCode image context (.operands [] []) point point
  | operand {first : Expr} {rest : List Expr} {operand : Operand}
      {operands : List Operand}
      {start between stop : Point}
      (computed : ExprCode image context (.value first operand) start between)
      (others : ExprCode image context (.operands rest operands) between stop) :
      ExprCode image context (.operands (first :: rest) (operand :: operands))
        start stop
  | noArguments {point : Point} :
      ExprCode image context (.arguments [] []) point point
  | argument {argument : Expr} {rest : List Expr} {parameter : Ty}
      {parameters : List Ty}
      {operand : Operand} {address : Address}
      {start computed widened stop : Point}
      (code : ExprCode image context (.value argument operand) start computed)
      (takes : takesArgument parameter argument operand.type = true)
      (widening : Widening image parameter operand address computed widened)
      (pass : image.Has widened.position
        ⟨.param, address, Context.argumentSize operand.type, .unused⟩)
      (others : ExprCode image context (.arguments rest parameters)
        widened.next stop) :
      ExprCode image context
        (.arguments (argument :: rest) (parameter :: parameters)) start stop

/-! ## Statements -/

/-- The code for an assignment, from one point to another. -/
inductive AssignCode (image : Image)
    (context : Context)
    (assignment : Assignment) : Point → Point → Prop where
  | whole {value : Operand} {resolved : Resolved} {first : Address}
      {location : Location}
      {start stop : Point}
      (unindexed : assignment.target.index = none)
      (computed : ExprCode image context (.value assignment.value value)
        start stop)
      (designates : context.Designates assignment.target.name false
        assignment.target.field resolved first location)
      (single : resolved.type.isList = false)
      (accepts : resolved.type.accepts value.type = true)
      (assign : image.Has stop.position
        ⟨.assign, value.address, .unused, first + resolved.offset⟩) :
      AssignCode image context assignment start stop.next
  | item {value position : Operand} {index : Expr} {resolved : Resolved}
      {pointer : Address}
      {start between afterIndex afterPointer : Point}
      (indexed : assignment.target.index = some index)
      (computed : ExprCode image context (.value assignment.value value)
        start between)
      (located : ExprCode image context (.value index position)
        between afterIndex)
      (pointed : PointerCode image context assignment.target.name
        assignment.target.field position resolved pointer
        afterIndex afterPointer)
      (single : resolved.type.isList = false)
      (accepts : resolved.type.accepts value.type = true)
      (assign : image.Has afterPointer.position
        ⟨.assignIndex, value.address, .unused, pointer⟩) :
      AssignCode image context assignment start afterPointer.next

/-- What a piece of code that acts is for. -/
inductive Clause where
  | statement (statement : Stmt)
  | block (statements : List Stmt)

/-- A guard is computed and is a truth value. -/
structure GuardCode (image : Image)
    (context : Context)
    (guard : Expr)
    (value : Operand)
    (start stop : Point) : Prop where
  computed : ExprCode image context (.value guard value) start stop
  truth : value.type.agrees (.basic .bool) = true

/-- The code for a statement or a block, from one point to another. -/
inductive StmtCode (image : Image) (context : Context) :
    Clause → Point → Point → Prop where
  | declare {declaration : Declaration} {found : Variable} {address : Address}
      {location : Location} {point : Point}
      (known : context.scope.locals.find? declaration.name = some found)
      (hasAddress : found.address = some address)
      (place : Place address found.type location)
      (region : location.region = .local)
      (fits : found.type.Fits)
      (init : image.Has point.position (initQuad address found.type)) :
      StmtCode image context (.statement (.declare declaration))
        point point.next
  | assign {assignment : Assignment} {start stop : Point}
      (code : AssignCode image context assignment start stop) :
      StmtCode image context (.statement (.assign assignment)) start stop
  | branch {guard : Expr} {body : List Stmt} {line : Nat} {value : Operand}
      {start guarded stop : Point}
      (condition : GuardCode image context guard value start guarded)
      (skip : image.Has guarded.position
        (Context.jumpUnless value stop.position))
      (inside : StmtCode image context (.block body) guarded.next stop) :
      StmtCode image context (.statement (.branch guard body line)) start stop
  | branchElse {guard : Expr} {body otherwise : List Stmt} {line : Nat}
      {value : Operand}
      {start guarded between stop : Point}
      (condition : GuardCode image context guard value start guarded)
      (skip : image.Has guarded.position
        (Context.jumpUnless value (between.position + 1)))
      (inside : StmtCode image context (.block body) guarded.next between)
      (across : image.Has between.position (Context.jump stop.position))
      (outside : StmtCode image context (.block otherwise) between.next stop) :
      StmtCode image context
        (.statement (.branchElse guard body otherwise line)) start stop
  | whileLoop {guard : Expr} {body : List Stmt} {line : Nat} {value : Operand}
      {start guarded stop : Point}
      (condition : GuardCode image context guard value start guarded)
      (skip : image.Has guarded.position
        (Context.jumpUnless value (stop.position + 1)))
      (inside : StmtCode image context (.block body) guarded.next stop)
      (again : image.Has stop.position (Context.jump start.position)) :
      StmtCode image context (.statement (.whileLoop guard body line))
        start stop.next
  | forLoop {first step : Assignment} {guard : Expr}
      {body : List Stmt} {line : Nat}
      {value : Operand} {start begun guarded between stop : Point}
      (initially : AssignCode image context first start begun)
      (condition : GuardCode image context guard value begun guarded)
      (skip : image.Has guarded.position
        (Context.jumpUnless value (stop.position + 1)))
      (inside : StmtCode image context (.block body) guarded.next between)
      (advance : AssignCode image context step between stop)
      (again : image.Has stop.position (Context.jump begun.position)) :
      StmtCode image context (.statement (.forLoop first guard step body line))
        start stop.next
  | write {value : Expr} {line : Nat} {printed : Operand} {start stop : Point}
      (computed : ExprCode image context (.value value printed) start stop)
      (printable : printed.type.isVoid = false ∧ printed.type.isList = false)
      (print : image.Has stop.position
        ⟨.print, .unused, .unused, printed.address⟩) :
      StmtCode image context (.statement (.write value line)) start stop.next
  | leave {line : Nat} {point : Point}
      (nothing : context.returns.isVoid = true)
      (ret : image.Has point.position ⟨.ret, .unused, .unused, .unused⟩) :
      StmtCode image context (.statement (.ret none line)) point point.next
  | ret {value : Expr} {line : Nat} {returned : Operand} {start stop : Point}
      (computed : ExprCode image context (.value value returned) start stop)
      (something : context.returns.isVoid = false)
      (accepts : context.returns.accepts returned.type = true)
      (ret : image.Has stop.position
        ⟨.ret, .unused, .unused, returned.address⟩) :
      StmtCode image context (.statement (.ret (some value) line))
        start stop.next
  | call {name : String} {arguments : List Expr} {line : Nat}
      {operand : Operand}
      {start stop : Point}
      (code : ExprCode image context
        (.value (.call name arguments line) operand) start stop) :
      StmtCode image context (.statement (.call name arguments line)) start stop
  | nil {point : Point} : StmtCode image context (.block []) point point
  | cons {statement : Stmt} {rest : List Stmt} {start between stop : Point}
      (first : StmtCode image context (.statement statement) start between)
      (others : StmtCode image context (.block rest) between stop) :
      StmtCode image context (.block (statement :: rest)) start stop

/-- The context of the body of a function. -/
def Routine.context (routine : Routine)
    (functions : Table Routine)
    (globals : Table Variable) : Context :=
  ⟨functions, ⟨routine.locals, globals⟩, routine.returns⟩

/-- What a function returns at its end: the zero value, if it has one. -/
inductive ZeroOf (image : Image) (type : Ty) : Address → Prop where
  | absent (unwritten : type.isVoid = true ∨ type.isObject = true) :
      ZeroOf image type .unused
  | literal {text : String} {address : Address} {offset : Nat}
      (place : Place address type ⟨.constant, type.element, offset⟩)
      (zero : (text, type.element) ∈ Space.zeros)
      (known : ⟨text, type.element, address⟩ ∈ image.constants) :
        ZeroOf image type address

/-- The code for a function: its body and a return of the zero value. -/
def FunctionCode (image : Image)
    (context : Context)
    (body : List Stmt)
    (start : Nat) : Prop :=
  ∃ stop zero,
    StmtCode image context (.block body) ⟨start, fun _ => 0⟩ stop ∧
    image.Has stop.position ⟨.ret, .unused, .unused, zero⟩ ∧
    ZeroOf image context.returns zero

end Easel
