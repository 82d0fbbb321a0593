import Easel.CompileError

/-!
# Taking tokens from the front of a list

Reading works on the tokens in front of the one that ends the text.  That
last token is never taken; it is what a diagnostic shows when the tokens run
out.  Whatever takes a token returns the rest with the fact that it is
shorter, so that reading by recursion ends.
-/

namespace Easel

/-- What is left of a list of tokens after at least one was taken. -/
abbrev Shorter (input : List Token) :=
  { rest : List Token // rest.length < input.length }

/-- A list of tokens is shorter than the same list behind one more token. -/
theorem shorter_tail (rest : List Token) : rest.length < rest.length + 1 :=
  Nat.lt_add_one rest.length

/-- What is left of a shorter list of tokens is shorter, too. -/
theorem shorter_trans {input rest last : List Token}
    (lastShorter : last.length < rest.length)
    (restShorter : rest.length < input.length) :
    last.length < input.length :=
  Nat.lt_trans lastShorter restShorter

/-- What is left of shorter tokens is shorter than these and one more. -/
theorem shorter_behind {input rest last : List Token}
    (lastShorter : last.length < rest.length)
    (restShorter : rest.length < input.length) :
    last.length < input.length + 1 :=
  Nat.lt_succ_of_lt (Nat.lt_trans lastShorter restShorter)

/-- A list of tokens is shorter than the same list behind two more tokens. -/
theorem shorter_second (rest : List Token) :
    rest.length < rest.length + 1 + 1 :=
  Nat.lt_succ_of_lt (Nat.lt_add_one rest.length)

/-- Something read from the front of a list of tokens, and what is left. -/
structure Reading (input : List Token) (α : Type) where
  value : α
  rest : List Token
  /-- At least one token was read. -/
  shorter : rest.length < input.length

/-- Something that may be absent, read from the front of a list of tokens. -/
structure OptionalReading (input : List Token) (α : Type) where
  value : α
  rest : List Token
  notLonger : rest.length ≤ input.length

/-- The next token, or the one that ends the text. -/
def peek (finish : Token) (input : List Token) : Token :=
  input.headD finish

/-- Refuse a text because something else stands where `what` is required. -/
def refuse (what : String) (found : Token) : CompileError :=
  .parse (.expected what found.kind) found.line

/-- Whether the next token is a given symbol. -/
def startsWith (symbol : Symbol) : List Token → Bool
  | ⟨.symbol found, _⟩ :: _ => found == symbol
  | _ => false

/-- Take a given symbol. -/
def takeSymbol (finish : Token)
    (symbol : Symbol)
    (what : String)
    (input : List Token) : Except CompileError (Shorter input) :=
  match input with
  | ⟨.symbol found, position⟩ :: rest =>
    if found = symbol then .ok ⟨rest, shorter_tail rest⟩
    else .error (refuse what ⟨.symbol found, position⟩)
  | other => .error (refuse what (peek finish other))

/-- Take a given keyword. -/
def takeKeyword (finish : Token)
    (keyword : Keyword)
    (what : String)
    (input : List Token) : Except CompileError (Shorter input) :=
  match input with
  | ⟨.keyword found, position⟩ :: rest =>
    if found = keyword then .ok ⟨rest, shorter_tail rest⟩
    else .error (refuse what ⟨.keyword found, position⟩)
  | other => .error (refuse what (peek finish other))

/-- Take a name. -/
def takeName (finish : Token) (what : String) (input : List Token) :
    Except CompileError (Reading input String) :=
  match input with
  | ⟨.name spelling, _⟩ :: rest => .ok ⟨spelling, rest, shorter_tail rest⟩
  | other => .error (refuse what (peek finish other))

end Easel
