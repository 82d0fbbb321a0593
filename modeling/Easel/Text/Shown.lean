import Easel.Text.Visible

/-!
# Text shown in diagnostics

A diagnostic shows a piece of source text between quotes in such a way that
every character can be told from its picture: controls are spelled by a
letter or by their code point, and so is everything that has no visible
shape of its own.
-/

namespace Easel.Text

/-- A code point spelled in hexadecimal between braces. -/
def showCodePoint (character : Char) : List Char :=
  "\\u\x7b".toList ++ Nat.toDigits 16 character.toNat ++ ['\x7d']

/-- One character of a text that is shown between two `quote` characters. -/
def showCharacter (quote character : Char) : List Char :=
  if character = quote then ['\\', quote]
  else if character = '\\' then ['\\', '\\']
  else if character = '\n' then ['\\', 'n']
  else if character = '\t' then ['\\', 't']
  else if character = '\r' then ['\\', 'r']
  else if character = '\x00' then ['\\', '0']
  else if isVisible character then [character]
  else showCodePoint character

/-- A text as diagnostics show it, between two `quote` characters. -/
def showBetween (quote : Char) (text : List Char) : String :=
  String.ofList (quote :: (text.flatMap (showCharacter quote) ++ [quote]))

/-- A string as diagnostics show it. -/
def showString (text : String) : String :=
  showBetween '"' text.toList

/-- A character as diagnostics show it. -/
def showChar (character : Char) : String :=
  showBetween '\'' [character]

end Easel.Text
