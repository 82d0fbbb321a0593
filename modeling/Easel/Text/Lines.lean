/-!
# Lines

A text is divided into lines by line feeds and by nothing else.  There is one
line more than there are line feeds.
-/

namespace Easel.Text

/-- Put a character in front of a first line and the lines after it. -/
def consCharacter (character : Char) (lines : List Char × List (List Char)) :
    List Char × List (List Char) :=
  if character = '\n' then ([], lines.1 :: lines.2)
  else (character :: lines.1, lines.2)

/-- The first line of a text and the lines after it. -/
def splitLines (text : List Char) : List Char × List (List Char) :=
  text.foldr consCharacter ([], [])

end Easel.Text
