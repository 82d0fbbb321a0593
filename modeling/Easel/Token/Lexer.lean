import Easel.CompileError
import Easel.Text.Blank
import Easel.Text.Letter
import Easel.Text.Quoted

/-!
# From text to tokens

The text is cut into lexemes, the characters of one token each, with blanks
and comments between them.  Reading a lexeme never changes the text: what was
read and what is left make up the input again, and something was read.  The
position of a token is counted from the text in front of it.
-/

namespace Easel

/-- One token's characters, cut from the front of `input`. -/
structure Lexeme (input : List Char) where
  kind : Kind
  text : List Char
  rest : List Char
  /-- Nothing is lost or reordered. -/
  append_rest : text ++ rest = input
  /-- Something is read. -/
  text_ne_nil : text ≠ []

namespace Lexeme

/-- What is left after a lexeme is shorter than the input. -/
theorem rest_length_lt {input : List Char} (lexeme : Lexeme input) :
    lexeme.rest.length < input.length := by
  have positive : 0 < lexeme.text.length :=
    List.length_pos_iff.mpr lexeme.text_ne_nil
  have total := congrArg List.length lexeme.append_rest
  simp only [List.length_append] at total
  omega

/-- A lexeme of the longest characters at the front that pass a test. -/
def span (first : Char)
    (rest : List Char)
    (test : Char → Bool)
    (kind : List Char → Kind) : Lexeme (first :: rest) where
  kind := kind (first :: rest.takeWhile test)
  text := first :: rest.takeWhile test
  rest := rest.dropWhile test
  append_rest := by simp
  text_ne_nil := by simp

end Lexeme

/-- The inside of a string literal up to its closing quote. -/
structure StringBody (input : List Char) where
  value : List Char
  text : List Char
  rest : List Char
  append_rest : text ++ '"' :: rest = input

/-- Read the inside of a string; it ends at a quote and on its line. -/
def readString : (input : List Char) → Except ParseFault (StringBody input)
  | [] => .error .unterminatedString
  | character :: input =>
    if quote : character = '"' then
      .ok ⟨[], [], input, by simp [quote]⟩
    else if character = '\\' then
      match input with
      | [] => .error .unterminatedEscape
      | escaped :: input => do
        let body ← readString input
        .ok ⟨Text.unescape escaped :: body.value,
          character :: escaped :: body.text,
          body.rest, by simp [body.append_rest]⟩
    else if character = '\n' then .error .unterminatedString
    else do
      let body ← readString input
      .ok ⟨character :: body.value, character :: body.text, body.rest,
        by simp [body.append_rest]⟩

/-- Read what follows the value of a character literal: its closing quote. -/
def closeChar (value : Char) (text rest : List Char) :
    Except ParseFault (Lexeme (text ++ rest)) :=
  match rest with
  | [] => .error .unterminatedCharacter
  | closing :: rest =>
    if closing = '\'' then .ok
      ⟨.char value, text ++ [closing], rest, by simp, by simp⟩
    else .error .unterminatedCharacter

/-- Read a character literal after its opening quote. -/
def readChar (opening : Char) (input : List Char) :
    Except ParseFault (Lexeme (opening :: input)) :=
  match input with
  | [] => .error .emptyCharacter
  | character :: rest =>
    if character = '\\' then
      match rest with
      | [] => .error .unterminatedEscape
      | escaped :: rest =>
        closeChar (Text.unescape escaped) [opening, character, escaped] rest
    else if character = '\'' ∨ character = '\n' then .error .emptyCharacter
    else closeChar character [opening, character] rest

/-- The greatest integer literal. -/
def greatestInteger : Nat := 9223372036854775807

/--
Read a number.  It is a run of digits, followed by a point and more digits if
a digit comes right after the point.
-/
def readNumber (first : Char) (rest : List Char) :
    Except ParseFault (Lexeme (first :: rest)) :=
  let whole := first :: rest.takeWhile Decimal.isDigit
  match afterWhole : rest.dropWhile Decimal.isDigit with
  | '.' :: digit :: tail =>
    if Decimal.isDigit digit then
      let text := whole ++ '.' :: digit :: tail.takeWhile Decimal.isDigit
      match Decimal.readFloat? text with
      | some value =>
        .ok ⟨.float value, text, tail.dropWhile Decimal.isDigit, by
          have glued := List.takeWhile_append_dropWhile (p := Decimal.isDigit)
            (l := rest)
          rw [afterWhole] at glued
          simp [text, whole, glued], by simp [text, whole]⟩
      | none => .error (.invalidNumber (String.ofList text))
    else integer whole
  | _ => integer whole
where
  /-- A run of digits that is not followed by a fraction. -/
  integer (whole : List Char) : Except ParseFault (Lexeme (first :: rest)) :=
    match Decimal.readNatural? greatestInteger whole with
    | some value =>
      .ok (Lexeme.span first rest Decimal.isDigit fun _ => .integer value)
    | none => .error (.invalidNumber (String.ofList whole))

/-- A lexeme of one character. -/
def single (symbol : Symbol) (character : Char) (rest : List Char) :
    Except ParseFault (Lexeme (character :: rest)) :=
  .ok ⟨.symbol symbol, [character], rest, rfl, by simp⟩

/-- Read an operator that is one character written twice. -/
def double (symbol : Symbol) (character : Char) (rest : List Char) :
    Except ParseFault (Lexeme (character :: rest)) :=
  match rest with
  | [] => .error (.loneCharacter character)
  | next :: tail =>
    if same : next = character then
      .ok ⟨.symbol symbol, [character, character],
        tail, by simp [same], by simp⟩
    else .error (.loneCharacter character)

/-- Read an equality sign, which is an assignment unless it is doubled. -/
def readEquals (first : Char) (rest : List Char) :
    Except ParseFault (Lexeme (first :: rest)) :=
  match rest with
  | [] => single .assign first []
  | next :: tail =>
    if next = '=' then
      .ok ⟨.symbol .equal, [first, next], tail, rfl, by simp⟩
    else single .assign first (next :: tail)

/-- Read one lexeme from a text that starts with no blank or comment. -/
def readLexeme (first : Char) (rest : List Char) :
    Except ParseFault (Lexeme (first :: rest)) :=
  match Symbol.ofCharacter? first with
  | some symbol => single symbol first rest
  | none =>
    if first = '=' then readEquals first rest
    else if first = '&' then double .and first rest
    else if first = '|' then double .or first rest
    else if first = '"' then do
      let body ← readString rest
      .ok ⟨.string (String.ofList body.value), first :: (body.text ++ ['"']),
        body.rest,
        by simp [body.append_rest], by simp⟩
    else if first = '\'' then readChar first rest
    else if Decimal.isDigit first then readNumber first rest
    else if Text.isWordStart first then
      .ok (Lexeme.span first rest Text.isWordPart fun word =>
        Kind.ofWord (String.ofList word))
    else .error (.unexpectedCharacter first)

/-- Whether a text starts with a line comment. -/
def startsComment (first : Char) (rest : List Char) : Bool :=
  first == '/' && rest.head? == some '/'

/-- Whether a character belongs to the line that it stands on. -/
def inLine (character : Char) : Bool :=
  character != '\n'

/--
The tokens of a text that starts at `position`.  Blanks are skipped, and so
are comments up to the end of their line.
-/
def tokensFrom (position : Position) :
    (input : List Char) → Except CompileError (List Token)
  | [] => .ok [⟨.finish, position⟩]
  | first :: rest =>
    if Text.isBlank first then tokensFrom (position.step first) rest
    else if startsComment first rest then
      tokensFrom (position.advance (first :: rest.takeWhile inLine))
        (rest.dropWhile inLine)
    else
      match readLexeme first rest with
      | .error fault => .error (.parse fault position.line)
      | .ok lexeme => do
        let following ← tokensFrom (position.advance lexeme.text) lexeme.rest
        .ok (⟨lexeme.kind, position⟩ :: following)
termination_by input => input.length
decreasing_by
  · simp
  · exact Nat.lt_succ_of_le (List.dropWhile_suffix inLine).length_le
  · exact lexeme.rest_length_lt

/-- The tokens of a source text, closed by the token for its end. -/
def tokenize (source : String) : Except CompileError (List Token) :=
  tokensFrom Position.start source.toList

end Easel
