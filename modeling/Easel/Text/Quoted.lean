/-!
# Quoted literals

Characters and strings are written between quotes on a single line.  Inside,
a backslash stands in front of the quote, of a backslash, and of the letters
that spell a line break and a tab.  Reading accepts a backslash in front of
any character, which then stands for itself.
-/

namespace Easel.Text

/-- One character inside a literal that is delimited by `quote`. -/
def escape (quote character : Char) : List Char :=
  if character = quote then ['\\', quote]
  else if character = '\\' then ['\\', '\\']
  else if character = '\n' then ['\\', 'n']
  else if character = '\t' then ['\\', 't']
  else [character]

/-- The character that an escape stands for, by the one behind its start. -/
def unescape (character : Char) : Char :=
  if character = 'n' then '\n'
  else if character = 't' then '\t'
  else character

/-- A text as a literal between two quotes. -/
def quoteWith (quote : Char) (text : List Char) : List Char :=
  quote :: (text.flatMap (escape quote) ++ [quote])

/-- Resolve the escapes of a literal; a backslash at the end is refused. -/
def resolve? : List Char → Option (List Char)
  | [] => some []
  | '\\' :: [] => none
  | '\\' :: character :: text => (resolve? text).map (unescape character :: ·)
  | character :: text => (resolve? text).map (character :: ·)

/--
The text between two quotes.  The opening and the closing quote are different
characters of the literal, and nothing else about its inside is required.
-/
def unquote? (quote : Char) : List Char → Option (List Char)
  | [] => none
  | opening :: rest =>
    if opening = quote ∧ rest.getLast? = some quote then resolve? rest.dropLast
    else none

/-- A string as a literal. -/
def quoteString (text : String) : String :=
  String.ofList (quoteWith '"' text.toList)

/-- A character as a literal. -/
def quoteChar (character : Char) : String :=
  String.ofList (quoteWith '\'' [character])

end Easel.Text
