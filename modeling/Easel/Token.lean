import Easel.Decimal.Write
import Easel.Element
import Easel.Text.Shown

/-!
# Tokens

Source text is a sequence of tokens: literals, names, the names of types,
keywords and symbols, closed by one token for the end of the text.  A token
carries the position of its first character.
-/

namespace Easel

/-- Words with a fixed meaning, other than the names of types. -/
inductive Keyword where
  | program
  | var
  | func
  | «if»
  | «else»
  | «while»
  | «for»
  | write
  | «return»
  | true
  | false
deriving Repr, DecidableEq, Inhabited

namespace Keyword

/-- All keywords. -/
def all : List Keyword :=
  [.program, .var, .func, .if, .else, .while, .for, .write, .return,
    .true, .false]

/-- The word itself. -/
def spelling : Keyword → String
  | .program => "program"
  | .var => "var"
  | .func => "func"
  | .if => "if"
  | .else => "else"
  | .while => "while"
  | .for => "for"
  | .write => "write"
  | .return => "return"
  | .true => "true"
  | .false => "false"

/-- The keyword with a given spelling. -/
def ofSpelling? (word : String) : Option Keyword :=
  all.find? fun keyword => keyword.spelling == word

/-- The keyword's name in diagnostics. -/
def label : Keyword → String
  | .program => "Program"
  | .var => "Var"
  | .func => "Func"
  | .if => "If"
  | .else => "Else"
  | .while => "While"
  | .for => "For"
  | .write => "Write"
  | .return => "Return"
  | .true => "True"
  | .false => "False"

end Keyword

/-- Brackets, punctuation and operators. -/
inductive Symbol where
  | leftBrace
  | rightBrace
  | leftBracket
  | rightBracket
  | leftParen
  | rightParen
  | semicolon
  | comma
  | dot
  | assign
  | equal
  | plus
  | minus
  | star
  | slash
  | less
  | greater
  | and
  | or
  | not
deriving Repr, DecidableEq, Inhabited

namespace Symbol

/-- The characters of the symbol. -/
def spelling : Symbol → List Char
  | leftBrace => ['\x7b']
  | rightBrace => ['\x7d']
  | leftBracket => ['[']
  | rightBracket => [']']
  | leftParen => ['(']
  | rightParen => [')']
  | semicolon => [';']
  | comma => [',']
  | dot => ['.']
  | assign => ['=']
  | equal => ['=', '=']
  | plus => ['+']
  | minus => ['-']
  | star => ['*']
  | slash => ['/']
  | less => ['<']
  | greater => ['>']
  | and => ['&', '&']
  | or => ['|', '|']
  | not => ['!']

/-- The symbols of one character that begin no longer symbol. -/
def singles : List Symbol :=
  [leftBrace, rightBrace, leftBracket, rightBracket, leftParen,
    rightParen, semicolon, comma, dot, plus, minus, star, slash,
    less, greater, not]

/-- The symbol that a character is by itself, whatever follows it. -/
def ofCharacter? (character : Char) : Option Symbol :=
  singles.find? fun symbol => symbol.spelling == [character]

/-- The symbol's name in diagnostics. -/
def label : Symbol → String
  | leftBrace => "LeftBrace"
  | rightBrace => "RightBrace"
  | leftBracket => "LeftBracket"
  | rightBracket => "RightBracket"
  | leftParen => "LeftParen"
  | rightParen => "RightParen"
  | semicolon => "Semicolon"
  | comma => "Comma"
  | dot => "Dot"
  | assign => "Equal"
  | equal => "EqualEqual"
  | plus => "Plus"
  | minus => "Minus"
  | star => "Star"
  | slash => "Slash"
  | less => "Less"
  | greater => "Greater"
  | and => "And"
  | or => "Or"
  | not => "Not"

end Symbol

/-- What a token is, apart from where it stands. -/
inductive Kind where
  | integer (value : Nat)
  | float (value : Float)
  | char (value : Char)
  | string (value : String)
  | name (spelling : String)
  | type (element : Element)
  | keyword (keyword : Keyword)
  | symbol (symbol : Symbol)
  | finish
deriving Repr, BEq, Inhabited

/--
Floating point literals have the fewest digits that read back, always with a
point or an exponent; the exponent form starts at the sixteenth power of ten
and below the fourth negative one.
-/
def literalLayout : Decimal.Layout :=
  ⟨some (-4, 15), true⟩

namespace Kind

/-- The name of the kind in diagnostics. -/
def label : Kind → String
  | integer _ => "IntegerLiteral"
  | float _ => "FloatLiteral"
  | char _ => "CharLiteral"
  | string _ => "StringLiteral"
  | name _ => "Identifier"
  | type _ => "TypeName"
  | keyword word => word.label
  | symbol mark => mark.label
  | finish => "EOF"

/-- The kind with its contents, as diagnostics show it. -/
def describe (kind : Kind) : String :=
  match kind with
  | integer value => s!"{kind.label}({value})"
  | float value => s!"{kind.label}({literalLayout.write value})"
  | char value => s!"{kind.label}({Text.showChar value})"
  | string value => s!"{kind.label}({Text.showString value})"
  | name spelling => s!"{kind.label}({Text.showString spelling})"
  | type element => s!"{kind.label}({Text.showString element.keyword})"
  | keyword _ | symbol _ | finish => kind.label

/-- The kind of a word: a keyword, the name of a type, or a name. -/
def ofWord (word : String) : Kind :=
  match Keyword.ofSpelling? word with
  | some found => keyword found
  | none =>
    match Element.ofKeyword? word with
    | some element => type element
    | none => name word

end Kind

/-- A place in the source text; lines and columns count from one. -/
structure Position where
  line : Nat
  column : Nat
deriving Repr, DecidableEq, Inhabited

namespace Position

/-- The place where a text starts. -/
def start : Position := ⟨1, 1⟩

/-- The place after one character. -/
def step (position : Position) (character : Char) : Position :=
  if character = '\n' then ⟨position.line + 1, 1⟩
  else ⟨position.line, position.column + 1⟩

/-- The place after a piece of text. -/
def advance (position : Position) (text : List Char) : Position :=
  text.foldl step position

end Position

/-- A token and the place of its first character. -/
structure Token where
  kind : Kind
  position : Position
deriving Repr, Inhabited

namespace Token

/-- The line on which the token starts. -/
def line (token : Token) : Nat :=
  token.position.line

end Token

end Easel
