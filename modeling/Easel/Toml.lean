import Easel.Decimal.Read
import Easel.Text.Lines

/-!
# Settings files

The part of TOML that settings need: comments, headers `[table]`, and keys with
a value.  Names of tables and keys are bare and not dotted.  A value is a string
in double quotes, with the escapes of one letter; a decimal number, also with
groups of digits, `inf` and `nan`; or a truth value.  All stands on one line, so
a document is read line by line.

What the format has beyond that is refused as malformed: dotted and quoted keys,
arrays, inline tables and tables of tables, strings in single or triple quotes,
escapes by code point, numbers to other bases, dates and times.
-/

namespace Easel.Toml

/-- A value that stands on one line. -/
inductive Scalar where
  | string (value : String)
  | integer (value : Int)
  | float (value : Float)
  | boolean (value : Bool)
deriving Repr, BEq, Inhabited

/-- The keys of a table and their values, in the order of the document. -/
abbrev Entries := List (String × Scalar)

/-- The keys in front of the first header, and the tables. -/
structure Document where
  top : Entries
  tables : List (String × Entries)
deriving Repr, BEq, Inhabited

/-- What is wrong with a settings file. -/
inductive Fault where
  | malformed (line : Nat)
  | duplicate (name : String) (line : Nat)
deriving Repr, DecidableEq, Inhabited

/-- The text of a fault. -/
def Fault.message : Fault → String
  | .malformed line => s!"line {line} is malformed"
  | .duplicate name line => s!"'{name}' is defined again in line {line}"

/-- What a line contributes. -/
inductive Line where
  | blank
  | header (table : String)
  | entry (key : String) (value : Scalar)
deriving Repr, BEq, Inhabited

/-! ## Characters -/

/-- A blank within a line. -/
def isBlank (character : Char) : Bool :=
  character == ' ' || character == '\t'

/-- A character that may stand in strings and comments. -/
def isPlain (character : Char) : Bool :=
  character == '\t' || (' ' ≤ character && character ≠ '\x7f')

/-- A character of a key. -/
def isKeyPart (character : Char) : Bool :=
  character.isAlphanum || character == '_' || character == '-'

/-- Skip blanks. -/
def skip (text : List Char) : List Char :=
  text.dropWhile isBlank

/-- Whether a line has nothing more but blanks and a comment. -/
def isFinished (text : List Char) : Bool :=
  match skip text with
  | [] => true
  | '#' :: comment => comment.all isPlain
  | _ => false

/-! ## Values -/

/-- The character for which a letter stands behind a backslash. -/
def unescape? : Char → Option Char
  | 'b' => some '\x08'
  | 't' => some '\t'
  | 'n' => some '\n'
  | 'f' => some '\x0c'
  | 'r' => some '\r'
  | '"' => some '"'
  | '\\' => some '\\'
  | _ => none

/-- The inside of a string up to its quote, and what follows that. -/
def readString? : List Char → Option (List Char × List Char)
  | [] => none
  | '"' :: rest => some ([], rest)
  | '\\' :: letter :: rest => do
    let character ← unescape? letter
    let (inside, after) ← readString? rest
    return (character :: inside, after)
  | character :: rest =>
    if character ≠ '\\' && isPlain character then do
      let (inside, after) ← readString? rest
      return (character :: inside, after)
    else none

/-- Digits of a whole number, which has no zeros in front. -/
def isWhole : List Char → Bool
  | [] => false
  | ['0'] => true
  | first :: rest => first ≠ '0' && (first :: rest).all Decimal.isDigit

/-- Whether a text is an exponent, with at least one digit. -/
def isExponent (text : List Char) : Bool :=
  let (_, digits) := Decimal.splitSign text
  !digits.isEmpty && digits.all Decimal.isDigit

/-- Whether a text without a sign is a number with a point or an exponent. -/
def isFraction (text : List Char) : Bool :=
  let whole := text.takeWhile Decimal.isDigit
  isWhole whole && match text.dropWhile Decimal.isDigit with
    | '.' :: rest =>
      let places := rest.takeWhile Decimal.isDigit
      !places.isEmpty && match rest.dropWhile Decimal.isDigit with
        | [] => true
        | mark :: exponent =>
          (mark == 'e' || mark == 'E') && isExponent exponent
    | mark :: exponent => (mark == 'e' || mark == 'E') && isExponent exponent
    | [] => false

/--
Drop the underscores that group digits.  An underscore stands between two
digits; `afterDigit` says whether a digit came right before the text.
-/
def ungroup? (afterDigit : Bool) : List Char → Option (List Char)
  | [] => some []
  | '_' :: digit :: rest =>
    if afterDigit && Decimal.isDigit digit then (ungroup? true rest).map
      (digit :: ·) else none
  | character :: rest =>
    if character = '_' then none
    else (ungroup? (Decimal.isDigit character) rest).map (character :: ·)

/--
A decimal with a point or an exponent.  It has to be below infinity, which has
a word of its own; a negative decimal may be as far from zero as it likes.
-/
def readFraction? (word : List Char) : Option Float :=
  (Decimal.readFloat? word).filter (· < 1.0 / 0.0)

/-- A word that is a truth value or a number whose digits are not grouped. -/
def readPlainWord? (word : List Char) : Option Scalar :=
  let (_, magnitude) := Decimal.splitSign word
  if word = ['t', 'r', 'u', 'e'] then some (.boolean true)
  else if word = ['f', 'a', 'l', 's', 'e'] then some (.boolean false)
  else if isWhole magnitude then
    (Decimal.readInteger? (-9223372036854775808) 9223372036854775807 word).map
      .integer
  else if isFraction magnitude then (readFraction? word).map .float
  else if magnitude = ['i', 'n', 'f'] || magnitude = ['n', 'a', 'n'] then
    (Decimal.readFloat? word).map .float
  else none

/-- A word that is a truth value or a number. -/
def readWord? (word : List Char) : Option Scalar :=
  (ungroup? false word).bind readPlainWord?

/-- A value at the end of a line. -/
def readScalar? (text : List Char) : Option Scalar :=
  match text with
  | '"' :: rest => do
    let (inside, after) ← readString? rest
    if isFinished after then some (.string (String.ofList inside)) else none
  | _ =>
    let isWordPart (character : Char) : Bool :=
      !isBlank character && character ≠ '#'
    if isFinished (text.dropWhile isWordPart) then
      readWord? (text.takeWhile isWordPart)
    else none

/-! ## Lines and documents -/

/-- A key, and what follows it and the blanks behind it. -/
def readKey? (text : List Char) : Option (String × List Char) :=
  let key := text.takeWhile isKeyPart
  if key.isEmpty then none
  else some (String.ofList key, skip (text.dropWhile isKeyPart))

/-- Read one line. -/
def readLine? (line : List Char) : Option Line :=
  if isFinished line then some .blank
  else
    match skip line with
    | '[' :: rest => do
      match ← readKey? (skip rest) with
      | (table, ']' :: after) =>
        if isFinished after then some (.header table) else none
      | _ => none
    | text => do
      match ← readKey? text with
      | (key, '=' :: after) => return .entry key (← readScalar? (skip after))
      | _ => none

/-- A document that is being read, and the table of its next key. -/
structure Draft where
  document : Document
  current : Option (String × Entries)

namespace Draft

/-- Finish the current table. -/
def close (draft : Draft) : Document :=
  match draft.current with
  | none => draft.document
  | some table =>
    { draft.document with tables := draft.document.tables ++ [table] }

/-- Add a key to some entries unless they have it already. -/
def addEntry (entries : Entries)
    (key : String)
    (value : Scalar)
    (number : Nat) : Except Fault Entries :=
  if (entries.lookup key).isSome then throw (.duplicate key number)
  else return entries ++ [(key, value)]

/-- Add what a line contributes. -/
def add (draft : Draft) (number : Nat) : Line → Except Fault Draft
  | .blank => return draft
  | .header table =>
    let document := draft.close
    if (document.top.lookup table).isSome ||
        (document.tables.lookup table).isSome then
      throw (.duplicate table number)
    else return ⟨document, some (table, [])⟩
  | .entry key value =>
    match draft.current with
    | none => do
      let top ← addEntry draft.document.top key value number
      return { draft with document := { draft.document with top } }
    | some (table, entries) => do
      return { draft with
        current := some (table, ← addEntry entries key value number) }

end Draft

/-- The lines of a document, each possibly with a carriage return. -/
def documentLines (text : List Char) : List (List Char) :=
  let (first, rest) := Text.splitLines text
  match (first :: rest).reverse with
  | [] => []
  | last :: ended =>
    (last :: ended.map fun line =>
      if line.getLast? = some '\r' then line.dropLast else line).reverse

/-- Read the lines of a document in order. -/
def readLines (draft : Draft) (number : Nat) :
    List (List Char) → Except Fault Document
  | [] => return draft.close
  | line :: lines =>
    match readLine? line with
    | none => throw (.malformed number)
    | some content =>
      do readLines (← draft.add number content) (number + 1) lines

/-- Read a document. -/
def Document.parse (text : String) : Except Fault Document :=
  readLines ⟨⟨[], []⟩, none⟩ 1 (documentLines text.toList)

end Easel.Toml
