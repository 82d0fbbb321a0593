import Easel.Expr
import Easel.Token.Expect

/-!
# Reading expressions

Each level of precedence is a chain of operands of the next tighter level,
joined from the left; the operands of the tightest level are literals,
places, calls, negations and groups.  A minus sign belongs to the number
after it and to nothing else.
-/

namespace Easel

/-- The operator of the level at the front of the tokens. -/
def Level.takeOperator? (level : Level) (input : List Token) :
    Option (Operator × Shorter input) :=
  match input with
  | ⟨.symbol symbol, _⟩ :: rest =>
    (level.operator? symbol).map fun operator =>
      (operator, ⟨rest, shorter_tail rest⟩)
  | _ => none

/-- The literal that one token is by itself. -/
def Kind.literal? : Kind → Option Literal
  | integer value => some (.integer false value)
  | float value => some (.float value)
  | char value => some (.char value)
  | string value => some (.string value)
  | keyword .true => some (.bool true)
  | keyword .false => some (.bool false)
  | _ => none

/-- The literal that a token is after a minus sign. -/
def Kind.negated? : Kind → Option Literal
  | integer value => some (.integer true value)
  | float value => some (.float (-value))
  | _ => none

/-- Read the optional attribute name after a variable or an element. -/
def readField (finish : Token) (input : List Token) :
    Except CompileError (OptionalReading input (Option String)) :=
  match input with
  | ⟨.symbol .dot, _⟩ :: rest => do
    let ⟨field, last, shorter⟩ ← takeName finish "attribute name after '.'" rest
    return ⟨some field, last, show last.length ≤ rest.length + 1 by omega⟩
  | other => return ⟨none, other, Nat.le_refl _⟩

mutual

/-- Read a chain of operands of one level. -/
def readLevel (finish : Token) (level : Level) (input : List Token) :
    Except CompileError (Reading input Expr) := do
  let ⟨first, rest, shorter⟩ ← readOperand finish level input
  let ⟨whole, last, notLonger⟩ ← readChain finish level first rest
  return ⟨whole, last, by omega⟩
termination_by 11 * input.length + (2 * level.rank + 2)

/-- Read what follows the operand `left` of a chain. -/
def readChain (finish : Token)
    (level : Level)
    (left : Expr)
    (input : List Token) : Except CompileError (OptionalReading input Expr) :=
  match level.takeOperator? input with
  | none => return ⟨left, input, Nat.le_refl _⟩
  | some (operator, ⟨afterOperator, taken⟩) => do
    let ⟨right, rest, shorter⟩ ← readOperand finish level afterOperator
    let ⟨whole, last, notLonger⟩ ←
      readChain finish level (level.join operator left right) rest
    return ⟨whole, last, by omega⟩
termination_by 11 * input.length
decreasing_by
  · have rankBound := level.rank_le
    omega
  · omega

/-- Read one operand of a level. -/
def readOperand (finish : Token) (level : Level) (input : List Token) :
    Except CompileError (Reading input Expr) :=
  match level with
  | .logic => readLevel finish .relation input
  | .relation => readLevel finish .sum input
  | .sum => readLevel finish .product input
  | .product => readFactor finish input
termination_by 11 * input.length + (2 * level.rank + 1)

/-- Read a literal, a place, a call, a negation or a group. -/
def readFactor (finish : Token) (input : List Token) :
    Except CompileError (Reading input Expr) :=
  match input with
  | [] => .error (refuse "expression" finish)
  | token :: rest =>
    match token.kind with
    | .symbol .leftParen => do
      let ⟨inner, afterInner, shorter⟩ ← readLevel finish .logic rest
      let ⟨last, closed⟩ ←
        takeSymbol finish .rightParen "')' after expression" afterInner
      return ⟨.group inner token.line, last, shorter_behind closed shorter⟩
    | .symbol .not => do
      let ⟨operand, last, shorter⟩ ← readFactor finish rest
      return ⟨.not operand token.line, last, show last.length <
        rest.length + 1 by omega⟩
    | .symbol .minus =>
      match rest with
      | [] => .error (.parse .minusOperand token.line)
      | number :: last =>
        match number.kind.negated? with
        | some value =>
          return ⟨.literal value token.line, last, shorter_second last⟩
        | none => .error (.parse .minusOperand token.line)
    | .name name =>
      match rest with
      | ⟨.symbol .leftParen, _⟩ :: afterParen => do
        let ⟨arguments, last, shorter⟩ ← readArguments finish afterParen
        return ⟨.call name arguments token.line, last,
          show last.length < afterParen.length + 1 + 1 by omega⟩
      | ⟨.symbol .leftBracket, _⟩ :: afterBracket => do
        let ⟨index, afterIndex, shorter⟩ ← readIndex finish afterBracket
        let ⟨field, last, notLonger⟩ ← readField finish afterIndex
        return ⟨.item name index field token.line, last,
          show last.length < afterBracket.length + 1 + 1 by omega⟩
      | afterName => do
        let ⟨field, last, notLonger⟩ ← readField finish afterName
        return ⟨.access name field token.line, last,
          show last.length < afterName.length + 1 by omega⟩
    | kind =>
      match kind.literal? with
      | some value =>
        return ⟨.literal value token.line, rest, shorter_tail rest⟩
      | none => .error (refuse "expression" token)
termination_by 11 * input.length

/-- Read an index after its opening bracket, up to the closing one. -/
def readIndex (finish : Token) (input : List Token) :
    Except CompileError (Reading input Expr) := do
  let ⟨index, rest, shorter⟩ ← readLevel finish .logic input
  let ⟨last, closed⟩ ← takeSymbol finish .rightBracket "']' after index" rest
  return ⟨index, last, by omega⟩
termination_by 11 * input.length + 9

/-- Read the arguments of a call, up to the closing parenthesis. -/
def readArguments (finish : Token) (input : List Token) :
    Except CompileError (Reading input (List Expr)) :=
  match input with
  | ⟨.symbol .rightParen, _⟩ :: rest => return ⟨[], rest, shorter_tail rest⟩
  | other => readArgumentList finish other
termination_by 11 * input.length + 10

/-- Read one or more arguments and the closing parenthesis. -/
def readArgumentList (finish : Token) (input : List Token) :
    Except CompileError (Reading input (List Expr)) := do
  let ⟨first, rest, shorter⟩ ← readLevel finish .logic input
  match rest, shorter with
  | ⟨.symbol .comma, _⟩ :: afterComma, shorter => do
    have shorter : afterComma.length + 1 < input.length := shorter
    let ⟨others, last, shorterStill⟩ ← readArgumentList finish afterComma
    return ⟨first :: others, last, by omega⟩
  | afterFirst, shorter => do
    let ⟨last, closed⟩ ← takeSymbol finish .rightParen "')' after arguments"
      afterFirst
    return ⟨[first], last, by omega⟩
termination_by 11 * input.length + 9

end

/-- Read a whole expression. -/
def readExpr (finish : Token) (input : List Token) :
    Except CompileError (Reading input Expr) :=
  readLevel finish .logic input

end Easel
