import Easel.Expr.Parser
import Easel.Program
import Easel.Token.Lexer

/-!
# Reading programs

A program is its name, the declarations of its global variables and its
functions.  One declaration can introduce several variables of a type.  The
first thing that does not fit is reported at the line where it stands.
-/

namespace Easel

/--
Read a type.  A type that is missing at the end of the text, or the size of a
list that is, is reported at the token in front of it.
-/
def readType (finish before : Token) (input : List Token) :
    Except CompileError (Reading input Ty) :=
  match input with
  | [] => .error (refuse "type" before)
  | token :: rest =>
    match token.kind with
    | .type element =>
      match rest with
      | ⟨.symbol .leftBracket, bracket⟩ :: sized =>
        match sized with
        | ⟨.integer size, position⟩ :: afterSize =>
          if size = 0 then .error (.parse .listSize position.line)
          else do
            let ⟨last, closed⟩ ←
              takeSymbol finish .rightBracket "']' after list size" afterSize
            if element = .void then .error (.parse .voidList token.line)
            else
              return ⟨.list element size, last,
                show last.length < afterSize.length + 1 + 1 + 1 by omega⟩
        | other :: _ => .error (.parse .listSize other.line)
        | [] => .error (.parse .listSize bracket.line)
      | afterName => return ⟨.basic element, afterName, shorter_tail afterName⟩
    | _ => .error (refuse "type" token)

/-- Read the names of a declaration, up to the semicolon. -/
def readNames (finish : Token) (type : Ty) (input : List Token) :
    Except CompileError (Reading input (List Declaration)) := do
  let ⟨name, rest, shorter⟩ ← takeName finish "variable name" input
  let declaration := ⟨name, type, (peek finish input).line⟩
  match rest, shorter with
  | ⟨.symbol .comma, _⟩ :: afterComma, shorter => do
    have shorter : afterComma.length + 1 < input.length := shorter
    let ⟨others, last, shorterStill⟩ ← readNames finish type afterComma
    return ⟨declaration :: others, last, by omega⟩
  | afterName, shorter => do
    let ⟨last, closed⟩ ←
      takeSymbol finish .semicolon "';' after variable declaration" afterName
    return ⟨[declaration], last, by omega⟩
termination_by input.length

/-- Read a declaration after its keyword, which is the token `before`. -/
def readDeclaration (finish before : Token) (input : List Token) :
    Except CompileError (Reading input (List Declaration)) := do
  let ⟨type, rest, shorter⟩ ← readType finish before input
  if type.isVoid then .error (.parse .voidVariable (peek finish input).line)
  else
    let ⟨declarations, last, shorterStill⟩ ← readNames finish type rest
    return ⟨declarations, last, shorter_trans shorterStill shorter⟩

/-- Read one or more parameters and the closing parenthesis. -/
def readParameterList (finish before : Token) (input : List Token) :
    Except CompileError (Reading input (List Declaration)) := do
  let ⟨type, rest, shorter⟩ ← readType finish before input
  let line := (peek finish input).line
  if type.isVoid then .error (.parse .voidParameter line)
  else
    let ⟨name, afterName, named⟩ ← takeName finish "parameter name" rest
    match afterName, named with
    | ⟨.symbol .comma, position⟩ :: afterComma, named => do
      have named : afterComma.length + 1 < rest.length := named
      let ⟨others, last, shorterStill⟩ ←
        readParameterList finish ⟨.symbol .comma, position⟩ afterComma
      return ⟨⟨name, type, line⟩ :: others, last, by omega⟩
    | afterName, named => do
      let ⟨last, closed⟩ ← takeSymbol finish .rightParen "')' after parameters"
        afterName
      return ⟨[⟨name, type, line⟩], last, by omega⟩
termination_by input.length

/-- Read the parameters of a function, up to the closing parenthesis. -/
def readParameters (finish before : Token) (input : List Token) :
    Except CompileError (Reading input (List Declaration)) :=
  match input with
  | ⟨.symbol .rightParen, _⟩ :: rest => return ⟨[], rest, shorter_tail rest⟩
  | other => readParameterList finish before other

/-- Read the place that an assignment writes. -/
def readTarget (finish : Token) (input : List Token) :
    Except CompileError (Reading input Target) := do
  let line := (peek finish input).line
  let ⟨name, rest, shorter⟩ ← takeName finish "identifier" input
  match rest, shorter with
  | ⟨.symbol .leftBracket, _⟩ :: afterBracket, shorter => do
    have shorter : afterBracket.length + 1 < input.length := shorter
    let ⟨index, afterIndex, indexed⟩ ← readIndex finish afterBracket
    let ⟨field, last, notLonger⟩ ← readField finish afterIndex
    return ⟨⟨name, some index, field, line⟩, last, by omega⟩
  | afterName, shorter => do
    let ⟨field, last, notLonger⟩ ← readField finish afterName
    return ⟨⟨name, none, field, line⟩, last, by omega⟩

/-- Read an assignment without the semicolon after it. -/
def readAssignment (finish : Token) (input : List Token) :
    Except CompileError (Reading input Assignment) := do
  let ⟨target, afterTarget, targeted⟩ ← readTarget finish input
  let ⟨afterSign, signed⟩ ← takeSymbol finish .assign
    "'=' in assignment" afterTarget
  let ⟨value, last, valued⟩ ← readExpr finish afterSign
  return ⟨⟨target, value, target.line⟩, last, by omega⟩

/-- Read a condition in parentheses. -/
def readGuard (finish : Token) (what : String) (input : List Token) :
    Except CompileError (Reading input Expr) := do
  let ⟨inside, opened⟩ ← takeSymbol finish .leftParen what input
  let ⟨guard, afterGuard, shorter⟩ ← readExpr finish inside
  let ⟨last, closed⟩ ← takeSymbol finish .rightParen
    "')' after condition" afterGuard
  return ⟨guard, last, by omega⟩

/-- The three parts in the head of a counting loop. -/
structure LoopHead where
  start : Assignment
  guard : Expr
  step : Assignment

/-- Read the head of a counting loop, with its parentheses. -/
def readLoopHead (finish : Token) (input : List Token) :
    Except CompileError (Reading input LoopHead) := do
  let ⟨inside, opened⟩ ← takeSymbol finish .leftParen "'(' after 'for'" input
  let ⟨start, afterStart, started⟩ ← readAssignment finish inside
  let ⟨beforeGuard, first⟩ ←
    takeSymbol finish .semicolon "';' after for initializer" afterStart
  let ⟨guard, afterGuard, guarded⟩ ← readExpr finish beforeGuard
  let ⟨beforeStep, second⟩ ←
    takeSymbol finish .semicolon "';' after for condition" afterGuard
  let ⟨step, afterStep, stepped⟩ ← readAssignment finish beforeStep
  let ⟨last, closed⟩ ← takeSymbol finish .rightParen
    "')' after for step" afterStep
  return ⟨⟨start, guard, step⟩, last, by omega⟩

/-- Read a statement without blocks that is no declaration. -/
def readSimple (finish : Token) (input : List Token) :
    Except CompileError (Reading input Stmt) :=
  match input with
  | [] => .error (refuse "statement" finish)
  | token :: rest =>
    match token.kind with
    | .keyword .write => do
      let ⟨value, afterValue, shorter⟩ ← readExpr finish rest
      let ⟨last, closed⟩ ← takeSymbol finish .semicolon
        "';' after write" afterValue
      return ⟨.write value token.line, last, shorter_behind closed shorter⟩
    | .keyword .return =>
      match rest with
      | ⟨.symbol .semicolon, _⟩ :: last =>
        return ⟨.ret none token.line, last, shorter_second last⟩
      | afterWord => do
        let ⟨value, afterValue, shorter⟩ ← readExpr finish afterWord
        let ⟨last, closed⟩ ← takeSymbol finish .semicolon
          "';' after return" afterValue
        return ⟨.ret (some value) token.line, last,
          shorter_behind closed shorter⟩
    | .name name =>
      match rest with
      | ⟨.symbol .leftParen, _⟩ :: afterParen => do
        let ⟨arguments, afterCall, shorter⟩ ← readArguments finish afterParen
        let ⟨last, closed⟩ ← takeSymbol finish .semicolon
          "';' after call" afterCall
        return ⟨.call name arguments token.line, last,
          show last.length < afterParen.length + 1 + 1 by omega⟩
      | afterName => do
        let ⟨assignment, afterValue, shorter⟩ ←
          readAssignment finish (token :: afterName)
        let ⟨last, closed⟩ ←
          takeSymbol finish .semicolon "';' after assignment" afterValue
        return ⟨.assign assignment, last, by omega⟩
    | _ => .error (refuse "statement" token)

mutual

/-- Read one statement; a declaration gives one for each variable. -/
def readStatement (finish : Token) (input : List Token) :
    Except CompileError (Reading input (List Stmt)) :=
  match input with
  | [] => .error (refuse "statement" finish)
  | token :: rest =>
    match token.kind with
    | .keyword .var => do
      let ⟨declarations, last, shorter⟩ ← readDeclaration finish token rest
      return ⟨declarations.map .declare, last,
        show last.length < rest.length + 1 by omega⟩
    | .keyword .if => do
      let ⟨guard, afterGuard, guarded⟩ ← readGuard finish "'(' after 'if'" rest
      let ⟨body, afterBody, blocked⟩ ← readBlock finish afterGuard
      match afterBody, blocked with
      | ⟨.keyword .else, _⟩ :: afterElse, blocked => do
        have blocked : afterElse.length + 1 < afterGuard.length := blocked
        let ⟨otherwise, last, shorter⟩ ← readBlock finish afterElse
        return ⟨[.branchElse guard body otherwise token.line], last,
          show last.length < rest.length + 1 by omega⟩
      | last, blocked =>
        return ⟨[.branch guard body token.line], last,
          show last.length < rest.length + 1 by omega⟩
    | .keyword .while => do
      let ⟨guard, afterGuard, guarded⟩ ←
        readGuard finish "'(' after 'while'" rest
      let ⟨body, last, blocked⟩ ← readBlock finish afterGuard
      return ⟨[.whileLoop guard body token.line], last,
        show last.length < rest.length + 1 by omega⟩
    | .keyword .for => do
      let ⟨head, afterHead, headed⟩ ← readLoopHead finish rest
      let ⟨body, last, blocked⟩ ← readBlock finish afterHead
      return ⟨[.forLoop head.start head.guard head.step body token.line], last,
        show last.length < rest.length + 1 by omega⟩
    | _ => do
      let ⟨statement, last, shorter⟩ ← readSimple finish (token :: rest)
      return ⟨[statement], last, shorter⟩
termination_by 2 * input.length

/-- Read a block of statements between braces. -/
def readBlock (finish : Token) (input : List Token) :
    Except CompileError (Reading input (List Stmt)) := do
  let ⟨inside, opened⟩ ← takeSymbol finish .leftBrace "'\x7b'" input
  let ⟨statements, last, shorter⟩ ← readStatements finish inside
  return ⟨statements, last, shorter_trans shorter opened⟩
termination_by 2 * input.length

/-- Read the statements of a block up to its closing brace. -/
def readStatements (finish : Token) (input : List Token) :
    Except CompileError (Reading input (List Stmt)) :=
  match input with
  | [] => .error (refuse "'\x7d'" finish)
  | ⟨.symbol .rightBrace, _⟩ :: rest => return ⟨[], rest, shorter_tail rest⟩
  | other => do
    let ⟨first, rest, shorter⟩ ← readStatement finish other
    let ⟨others, last, shorterStill⟩ ← readStatements finish rest
    return ⟨first ++ others, last, by omega⟩
termination_by 2 * input.length + 1

end

/-- Read one function. -/
def readFunction (finish : Token) (input : List Token) :
    Except CompileError (Reading input Function) := do
  let first := peek finish input
  let ⟨afterFunc, opened⟩ ← takeKeyword finish .func "'func'" input
  let ⟨returns, afterType, typed⟩ ← readType finish first afterFunc
  let ⟨name, afterName, named⟩ ← takeName finish "function name" afterType
  let ⟨inside, parenthesised⟩ ←
    takeSymbol finish .leftParen "'(' after function name" afterName
  let ⟨parameters, afterParameters, closed⟩ ←
    readParameters finish (peek finish afterName) inside
  let ⟨body, last, blocked⟩ ← readBlock finish afterParameters
  return ⟨⟨name, parameters, returns, body, first.line⟩, last, by omega⟩

/-- Read the declarations of global variables at the front. -/
def readGlobals (finish : Token) (input : List Token) :
    Except CompileError (OptionalReading input (List Declaration)) :=
  match input with
  | ⟨.keyword .var, position⟩ :: rest => do
    let ⟨first, afterFirst, shorter⟩ ←
      readDeclaration finish ⟨.keyword .var, position⟩ rest
    let ⟨others, last, notLonger⟩ ← readGlobals finish afterFirst
    return ⟨first ++ others, last, show last.length ≤ rest.length + 1 by omega⟩
  | other => return ⟨[], other, Nat.le_refl _⟩
termination_by input.length

/-- Read functions up to the end of the text. -/
def readFunctions (finish : Token) (input : List Token) :
    Except CompileError (List Function) :=
  match input with
  | [] => return []
  | token :: rest => do
    let ⟨first, afterFirst, _shorter⟩ ← readFunction finish (token :: rest)
    let others ← readFunctions finish afterFirst
    return first :: others
termination_by input.length
decreasing_by simp only [List.length_cons] at _shorter ⊢; omega

/-- Read a whole program. -/
def readProgram (finish : Token) (input : List Token) :
    Except CompileError Program := do
  let ⟨afterWord, _⟩ ← takeKeyword finish .program "'program'" input
  let ⟨name, afterName, _⟩ ← takeName finish "program name" afterWord
  let ⟨afterHead, _⟩ ← takeSymbol finish .semicolon "';' after program name"
    afterName
  let ⟨globals, afterGlobals, _⟩ ← readGlobals finish afterHead
  let functions ← readFunctions finish afterGlobals
  return ⟨name, globals, functions⟩

/-- The token that ends a text, if the list of its tokens lacks it. -/
def defaultFinish : Token := ⟨.finish, Position.start⟩

/-- The program that tokens denote; the last of them ends the text. -/
def Program.ofTokens (tokens : List Token) : Except CompileError Program :=
  readProgram (tokens.getLastD defaultFinish) tokens.dropLast

/-- The expression at the front of tokens; the others are not looked at. -/
def Expr.ofTokens (tokens : List Token) : Except CompileError Expr := do
  let reading ← readExpr (tokens.getLastD defaultFinish) tokens.dropLast
  return reading.value

/-- The program that a source text denotes. -/
def Program.parse (source : String) : Except CompileError Program := do
  Program.ofTokens (← tokenize source)

/-- The expression that a source text starts with. -/
def Expr.parse (source : String) : Except CompileError Expr := do
  Expr.ofTokens (← tokenize source)

end Easel
