import Easel.Expr

/-!
# Programs

A program declares global variables and functions.  A function's body is a
list of statements; blocks nest inside conditions and loops, and every
variable that is declared in any of them belongs to the whole function.
-/

namespace Easel

/-- The declaration of a variable or a parameter. -/
structure Declaration where
  name : String
  type : Ty
  line : Nat
deriving Repr, DecidableEq, Inhabited

/-- The place that an assignment writes: a variable, item or attribute. -/
structure Target where
  name : String
  index : Option Expr
  field : Option String
  line : Nat
deriving Repr, Inhabited

/-- An assignment. -/
structure Assignment where
  target : Target
  value : Expr
  line : Nat
deriving Repr, Inhabited

/-- A statement. -/
inductive Stmt where
  | declare (declaration : Declaration)
  | assign (assignment : Assignment)
  | branch (guard : Expr) (body : List Stmt) (line : Nat)
  | branchElse (guard : Expr) (body otherwise : List Stmt) (line : Nat)
  | whileLoop (guard : Expr) (body : List Stmt) (line : Nat)
  | forLoop (start : Assignment) (guard : Expr) (step : Assignment)
      (body : List Stmt) (line : Nat)
  | write (value : Expr) (line : Nat)
  | ret (value : Option Expr) (line : Nat)
  | call (name : String) (arguments : List Expr) (line : Nat)
deriving Repr, Inhabited

/-- A function. -/
structure Function where
  name : String
  parameters : List Declaration
  returns : Ty
  body : List Stmt
  line : Nat
deriving Repr, Inhabited

/-- A whole program. -/
structure Program where
  name : String
  globals : List Declaration
  functions : List Function
deriving Repr, Inhabited

end Easel
