import Easel.Program.Parser

/-!
# The grammar of programs

The rules say which tokens make up a program and which tree they denote.  A
phrase is a list of tokens together with its tree; a rule glues the tokens of
smaller phrases and of keywords and symbols together in order, so that each
token of a phrase belongs to exactly one of its parts.

    program    := "program" ID ";" { "var" vardecl } { function }
    function   := "func" type ID "(" [ type ID { "," type ID } ] ")" block
    vardecl    := type ID { "," ID } ";"
    type       := basic [ "[" INT "]" ]
    block      := "{" { statement } "}"
    statement  := "var" vardecl
                | assign ";"
                | "if" "(" expression ")" block [ "else" block ]
                | "while" "(" expression ")" block
                | "for" "(" assign ";" expression ";" assign ")" block
                | "write" expression ";"
                | "return" [ expression ] ";"
                | call ";"
    assign     := target "=" expression
    target     := ID [ "[" expression "]" ] [ "." ID ]
    expression := exp { ("<" | ">" | "==" | "&&" | "||") exp }
    exp        := term { ("+" | "-") term }
    term       := factor { ("*" | "/") factor }
    factor     := "(" expression ")" | "!" factor | "-" (INT | FLOAT) | constant
    constant   := INT | FLOAT | CHAR | STRING | "true" | "false" | call | target
    call       := ID "(" [ expression { "," expression } ] ")"

Sizes of lists are positive, and neither a variable nor a parameter nor an
item of a list is void.
-/

namespace Easel.Grammar

/-- The kinds of chains: an expression, an exp and a term. -/
inductive Rank where
  | test
  | sum
  | product
deriving DecidableEq

namespace Rank

/-- The operator that a symbol denotes in a chain. -/
def operator? : Rank → Symbol → Option Operator
  | test, .less => some .less
  | test, .greater => some .greater
  | test, .equal => some .equal
  | test, .and => some .and
  | test, .or => some .or
  | sum, .plus => some .add
  | sum, .minus => some .sub
  | product, .star => some .mul
  | product, .slash => some .div
  | _, _ => none

end Rank

/-- An operator and the operand behind it. -/
abbrev Link := Operator × Expr

/-- Join the links of a chain to its first operand, from the left. -/
def joined (first : Expr) (links : List Link) : Expr :=
  links.foldl (fun left link => .binary link.1 left link.2) first

/-- The links at the front that compare, joined, and the links behind. -/
def compared (first : Expr) : List Link → Expr × List Link
  | [] => (first, [])
  | (operator, operand) :: rest =>
    if operator.level = .relation then
      compared (.binary operator first operand) rest
    else (first, (operator, operand) :: rest)

theorem compared_length (first : Expr) (links : List Link) :
    (compared first links).2.length ≤ links.length := by
  induction links generalizing first with
  | nil => exact Nat.le_refl 0
  | cons link links ih =>
    unfold compared
    split
    · exact Nat.le_succ_of_le (ih _)
    · exact Nat.le_refl _

/--
Join links to a comparison in front of them.  A logical operator binds looser
than a comparison, so each run of comparisons between logical operators is an
operand of its own.
-/
def connected (left : Expr) : List Link → Expr
  | [] => left
  | (operator, operand) :: rest =>
    let next := compared operand rest
    connected (Level.logic.join operator left next.1) next.2
termination_by links => links.length
decreasing_by exact Nat.lt_succ_of_le (compared_length operand rest)

/-- The tree of a chain. -/
def Rank.join : Rank → Expr → List Link → Expr
  | test, first, links =>
    connected (compared first links).1 (compared first links).2
  | sum, first, links | product, first, links => joined first links

/-! ## Expressions -/

/-- The parts of an expression. -/
inductive Part where
  /-- An expression, an exp or a term. -/
  | chain (rank : Rank)
  /-- An operand of a chain: an exp, a term or a factor. -/
  | operand (rank : Rank)
  /-- The operators of a chain, each with the operand behind it. -/
  | links (rank : Rank)
  | factor
  | call
  | target
  /-- The arguments of a call, at least one. -/
  | arguments

namespace Part

/-- A whole expression. -/
abbrev expression : Part := chain .test

/-- What a part of an expression denotes. -/
abbrev Tree : Part → Type
  | chain _ | operand _ | factor | call => Expr
  | links _ => List Link
  | target => Easel.Target
  | arguments => List Expr

end Part

/-- The use of a place as a value. -/
def used (target : Target) : Expr :=
  match target.index with
  | none => .access target.name target.field target.line
  | some index => .item target.name index target.field target.line

/-- The optional attribute name behind a variable or an item. -/
inductive Field : List Token → Option String → Prop
  | absent : Field [] none
  | present {dot named : Position} {name : String} :
      Field [⟨.symbol .dot, dot⟩, ⟨.name name, named⟩] (some name)

/-- The phrases inside an expression. -/
inductive Phrase : (part : Part) → List Token → part.Tree → Prop
  | chain {rank : Rank} {front back : List Token} {first : Expr}
      {rest : List Link} : Phrase (.operand rank) front first →
      Phrase (.links rank) back rest →
      Phrase (.chain rank) (front ++ back) (rank.join first rest)
  | noLink {rank : Rank} : Phrase (.links rank) [] []
  | link {rank : Rank} {symbol : Symbol} {position : Position}
      {operator : Operator}
      {front back : List Token} {operand : Expr} {rest : List Link} :
      rank.operator? symbol = some operator →
      Phrase (.operand rank) front operand → Phrase (.links rank) back rest →
      Phrase (.links rank) (⟨.symbol symbol, position⟩ :: front ++ back)
        ((operator, operand) :: rest)
  | exp {tokens : List Token} {tree : Expr} :
      Phrase (.chain .sum) tokens tree → Phrase (.operand .test) tokens tree
  | term {tokens : List Token} {tree : Expr} :
      Phrase (.chain .product) tokens tree → Phrase (.operand .sum) tokens tree
  | factor {tokens : List Token} {tree : Expr} :
      Phrase .factor tokens tree → Phrase (.operand .product) tokens tree
  | group {opened closed : Position} {inside : List Token} {inner : Expr} :
      Phrase .expression inside inner →
      Phrase .factor (⟨.symbol .leftParen, opened⟩ :: inside ++
        [⟨.symbol .rightParen, closed⟩]) (.group inner opened.line)
  | not {position : Position} {tokens : List Token} {operand : Expr} :
      Phrase .factor tokens operand →
      Phrase .factor (⟨.symbol .not, position⟩ :: tokens)
        (.not operand position.line)
  | negative {position : Position} {number : Token} {value : Literal} :
      number.kind.negated? = some value →
      Phrase .factor [⟨.symbol .minus, position⟩,
        number] (.literal value position.line)
  | literal {token : Token} {value : Literal} :
      token.kind.literal? = some value →
        Phrase .factor [token] (.literal value token.line)
  | result {tokens : List Token} {tree : Expr} :
      Phrase .call tokens tree → Phrase .factor tokens tree
  | use {tokens : List Token} {target : Target} :
      Phrase .target tokens target → Phrase .factor tokens (used target)
  | plain {name : String} {position : Position} {back : List Token}
      {field : Option String} : Field back field →
      Phrase .target (⟨.name name, position⟩ :: back) ⟨name, none, field,
        position.line⟩
  | item {name : String} {position opened closed : Position}
      {inside back : List Token}
      {index : Expr} {field : Option String} :
      Phrase .expression inside index → Field back field →
      Phrase .target
        (⟨.name name, position⟩ :: ⟨.symbol .leftBracket, opened⟩ :: inside ++
          ⟨.symbol .rightBracket, closed⟩ :: back)
        ⟨name, some index, field, position.line⟩
  | bareCall {name : String} {position opened closed : Position} :
      Phrase .call
        [⟨.name name, position⟩, ⟨.symbol .leftParen, opened⟩,
          ⟨.symbol .rightParen, closed⟩]
        (.call name [] position.line)
  | call {name : String} {position opened closed : Position}
      {inside : List Token}
      {arguments : List Expr} :
      Phrase .arguments inside arguments →
      Phrase .call
        (⟨.name name, position⟩ :: ⟨.symbol .leftParen, opened⟩ :: inside ++
          [⟨.symbol .rightParen, closed⟩])
        (.call name arguments position.line)
  | lastArgument {tokens : List Token} {argument : Expr} :
      Phrase .expression tokens argument → Phrase .arguments tokens [argument]
  | argument {front back : List Token} {position : Position} {first : Expr}
      {others : List Expr} :
      Phrase .expression front first → Phrase .arguments back others →
      Phrase .arguments (front ++ ⟨.symbol .comma, position⟩ :: back)
        (first :: others)

/-- The phrases of types. -/
inductive TypePhrase : List Token → Ty → Prop
  | basic {element : Element} {position : Position} :
      TypePhrase [⟨.type element, position⟩] (.basic element)
  | list {element : Element} {size : Nat}
      {position opened sized closed : Position} : element ≠ .void → 0 < size →
      TypePhrase
        [⟨.type element, position⟩, ⟨.symbol .leftBracket, opened⟩,
          ⟨.integer size, sized⟩, ⟨.symbol .rightBracket, closed⟩]
        (.list element size)

/-- One or more names of variables of a type, with the semicolon behind them. -/
inductive NamesPhrase (type : Ty) : List Token → List Declaration → Prop
  | last {name : String} {position closed : Position} :
      NamesPhrase type [⟨.name name, position⟩, ⟨.symbol .semicolon, closed⟩]
        [⟨name, type, position.line⟩]
  | more {name : String} {position comma : Position} {back : List Token}
      {others : List Declaration} :
      NamesPhrase type back others →
      NamesPhrase type
        (⟨.name name, position⟩ :: ⟨.symbol .comma, comma⟩ :: back)
        (⟨name, type, position.line⟩ :: others)

/-- The declaration of variables behind the keyword. -/
inductive DeclarationPhrase : List Token → List Declaration → Prop
  | mk {front back : List Token} {type : Ty} {declarations : List Declaration} :
      TypePhrase front type → type.isVoid = false →
        NamesPhrase type back declarations →
      DeclarationPhrase (front ++ back) declarations

/-- One or more parameters of a function, with the parenthesis behind them. -/
inductive ParametersPhrase : List Token → List Declaration → Prop
  | last {first : Token} {front : List Token} {type : Ty} {name : String}
      {position closed : Position} :
      TypePhrase (first :: front) type → type.isVoid = false →
      ParametersPhrase
        (first :: front ++ [⟨.name name, position⟩,
          ⟨.symbol .rightParen, closed⟩])
        [⟨name, type, first.line⟩]
  | more {first : Token} {front back : List Token} {type : Ty} {name : String}
      {position comma : Position} {others : List Declaration} :
      TypePhrase (first :: front) type → type.isVoid = false →
      ParametersPhrase back others →
      ParametersPhrase
        (first :: front ++ ⟨.name name, position⟩ ::
          ⟨.symbol .comma, comma⟩ :: back)
        (⟨name, type, first.line⟩ :: others)

/-- An assignment without the semicolon behind it. -/
inductive AssignmentPhrase : List Token → Assignment → Prop
  | mk {front back : List Token} {position : Position} {target : Target}
      {value : Expr} : Phrase .target front target →
      Phrase .expression back value →
      AssignmentPhrase (front ++ ⟨.symbol .assign, position⟩ :: back)
        ⟨target, value, target.line⟩

inductive GuardPhrase : List Token → Expr → Prop
  | mk {opened closed : Position} {inside : List Token} {guard : Expr} :
      Phrase .expression inside guard →
      GuardPhrase (⟨.symbol .leftParen, opened⟩ :: inside ++
        [⟨.symbol .rightParen, closed⟩]) guard

/-- The head of a counting loop in parentheses. -/
inductive LoopHeadPhrase : List Token → LoopHead → Prop
  | mk {opened first second closed : Position} {early middle late : List Token}
      {start step : Assignment} {guard : Expr} :
      AssignmentPhrase early start → Phrase .expression middle guard →
      AssignmentPhrase late step →
      LoopHeadPhrase
        (⟨.symbol .leftParen, opened⟩ :: early ++ ⟨.symbol .semicolon, first⟩ ::
          middle ++ ⟨.symbol .semicolon, second⟩ :: late ++
            [⟨.symbol .rightParen, closed⟩])
        ⟨start, guard, step⟩

/-- A statement, a block, or the statements of a block and its brace. -/
inductive CodePart where
  | statement
  | block
  | body

/-- The phrases of statements. -/
inductive CodePhrase : CodePart → List Token → List Stmt → Prop
  | declare {position : Position} {tokens : List Token}
      {declarations : List Declaration} :
      DeclarationPhrase tokens declarations →
      CodePhrase .statement (⟨.keyword .var, position⟩ :: tokens)
      (declarations.map .declare)
  | assign {closed : Position} {tokens : List Token} {assignment : Assignment} :
      AssignmentPhrase tokens assignment →
      CodePhrase .statement (tokens ++ [⟨.symbol .semicolon, closed⟩])
        [.assign assignment]
  | branch {position : Position} {front back : List Token} {guard : Expr}
      {body : List Stmt} : GuardPhrase front guard →
      CodePhrase .block back body →
      CodePhrase .statement (⟨.keyword .if, position⟩ :: front ++ back)
        [.branch guard body position.line]
  | branchElse {position other : Position} {front middle back : List Token}
      {guard : Expr}
      {body otherwise : List Stmt} :
      GuardPhrase front guard → CodePhrase .block middle body →
      CodePhrase .block back otherwise →
      CodePhrase .statement
        (⟨.keyword .if, position⟩ :: front ++ middle ++
          ⟨.keyword .else, other⟩ :: back)
        [.branchElse guard body otherwise position.line]
  | whileLoop {position : Position} {front back : List Token} {guard : Expr}
      {body : List Stmt} :
      GuardPhrase front guard → CodePhrase .block back body →
      CodePhrase .statement (⟨.keyword .while, position⟩ :: front ++ back)
        [.whileLoop guard body position.line]
  | forLoop {position : Position} {front back : List Token} {head : LoopHead}
      {body : List Stmt} :
      LoopHeadPhrase front head → CodePhrase .block back body →
      CodePhrase .statement (⟨.keyword .for, position⟩ :: front ++ back)
        [.forLoop head.start head.guard head.step body position.line]
  | write {position closed : Position} {tokens : List Token} {value : Expr} :
      Phrase .expression tokens value →
      CodePhrase .statement
        (⟨.keyword .write, position⟩ :: tokens ++
          [⟨.symbol .semicolon, closed⟩])
        [.write value position.line]
  | bareReturn {position closed : Position} :
      CodePhrase .statement [⟨.keyword .return, position⟩,
        ⟨.symbol .semicolon, closed⟩] [.ret none position.line]
  | return {position closed : Position} {tokens : List Token} {value : Expr} :
      Phrase .expression tokens value →
      CodePhrase .statement
        (⟨.keyword .return, position⟩ :: tokens ++
          [⟨.symbol .semicolon, closed⟩])
        [.ret (some value) position.line]
  | call {closed : Position} {tokens : List Token} {name : String}
      {arguments : List Expr}
      {line : Nat} :
      Phrase .call tokens (.call name arguments line) →
      CodePhrase .statement (tokens ++ [⟨.symbol .semicolon, closed⟩])
        [.call name arguments line]
  | block {opened : Position} {tokens : List Token} {body : List Stmt} :
      CodePhrase .body tokens body →
      CodePhrase .block (⟨.symbol .leftBrace, opened⟩ :: tokens) body
  | done {closed : Position} :
      CodePhrase .body [⟨.symbol .rightBrace, closed⟩] []
  | step {front back : List Token} {first others : List Stmt} :
      CodePhrase .statement front first → CodePhrase .body back others →
      CodePhrase .body (front ++ back) (first ++ others)

inductive FunctionPhrase : List Token → Function → Prop
  | bare {position named opened closed : Position} {front back : List Token}
      {returns : Ty}
      {name : String} {body : List Stmt} :
      TypePhrase front returns → CodePhrase .block back body →
      FunctionPhrase
        (⟨.keyword .func, position⟩ :: front ++ ⟨.name name, named⟩ ::
          ⟨.symbol .leftParen, opened⟩ :: ⟨.symbol .rightParen, closed⟩ :: back)
        ⟨name, [], returns, body, position.line⟩
  | mk {position named opened : Position} {front inside back : List Token}
      {returns : Ty}
      {name : String} {parameters : List Declaration} {body : List Stmt} :
      TypePhrase front returns → ParametersPhrase inside parameters →
      CodePhrase .block back body →
      FunctionPhrase
        (⟨.keyword .func, position⟩ :: front ++ ⟨.name name, named⟩ ::
          ⟨.symbol .leftParen, opened⟩ :: inside ++ back)
        ⟨name, parameters, returns, body, position.line⟩

/-- The declarations of global variables. -/
inductive GlobalsPhrase : List Token → List Declaration → Prop
  | none : GlobalsPhrase [] []
  | more {position : Position} {front back : List Token}
      {first others : List Declaration} : DeclarationPhrase front first →
      GlobalsPhrase back others →
      GlobalsPhrase (⟨.keyword .var, position⟩ :: front ++ back)
      (first ++ others)

/-- The functions of a program. -/
inductive FunctionsPhrase : List Token → List Function → Prop
  | none : FunctionsPhrase [] []
  | more {front back : List Token} {first : Function} {others : List Function} :
      FunctionPhrase front first → FunctionsPhrase back others →
      FunctionsPhrase (front ++ back) (first :: others)

inductive ProgramPhrase : List Token → Program → Prop
  | mk {position named closed : Position} {name : String}
      {front back : List Token}
      {globals : List Declaration} {functions : List Function} :
      GlobalsPhrase front globals → FunctionsPhrase back functions →
      ProgramPhrase
        (⟨.keyword .program, position⟩ :: ⟨.name name, named⟩ ::
          ⟨.symbol .semicolon, closed⟩ :: front ++ back)
        ⟨name, globals, functions⟩

/-- The tokens make up a program. -/
def Sentence (tokens : List Token) : Prop :=
  ∃ program, ProgramPhrase tokens program

end Easel.Grammar
