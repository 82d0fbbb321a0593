import Easel.Text.Ranges

/-!
# Blank characters

The characters that separate words: the white space of every script, among
them the vertical tab, the next line character and the ideographic space.
-/

namespace Easel.Text

/-- Code points with the white space property. -/
def blankRanges : Ranges :=
  [(0x9, 0xD), (0x20, 0x20), (0x85, 0x85), (0xA0, 0xA0), (0x1680, 0x1680),
   (0x2000, 0x200A), (0x2028, 0x2029), (0x202F, 0x202F), (0x205F, 0x205F),
   (0x3000, 0x3000)]

/-- White space, in any script. -/
def isBlank (character : Char) : Bool :=
  blankRanges.contains character

/-- Drop the blanks at the front. -/
def trimStart (text : List Char) : List Char :=
  text.dropWhile isBlank

/-- Drop the blanks at the end. -/
def trimEnd (text : List Char) : List Char :=
  (text.reverse.dropWhile isBlank).reverse

/-- Drop the blanks at both ends. -/
def trim (text : List Char) : List Char :=
  trimEnd (trimStart text)

/-- Put a word in front of the words after it, unless it is empty. -/
def consWord (word : List Char) (rest : List (List Char)) : List (List Char) :=
  if word.isEmpty then rest else word :: rest

/-- Put a character in front of a first, possibly empty, word. -/
def consLetter (character : Char) (words : List Char × List (List Char)) :
    List Char × List (List Char) :=
  if isBlank character then ([], consWord words.1 words.2)
  else (character :: words.1, words.2)

/--
The maximal runs without blanks, in order.  Blanks at the ends and repeated
blanks produce no empty word.
-/
def words (text : List Char) : List (List Char) :=
  let (word, rest) := text.foldr consLetter ([], [])
  consWord word rest

end Easel.Text
