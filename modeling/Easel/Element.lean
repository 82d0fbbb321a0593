/-!
# Element types

The values of a program belong to eleven element types: five scalars, the
absent value, and five kinds of drawable object.  Every type but the absent
one owns a segment of storage; the order of the constructors is the order of
the segments.
-/

namespace Easel

/-- The type of a single value. -/
inductive Element where
  | float
  | char
  | bool
  | int
  | string
  | void
  | square
  | circle
  | image
  | text
  | background
deriving Repr, DecidableEq, Inhabited

namespace Element

/-- All element types, in the order of their codes. -/
def all : List Element :=
  [float, char, bool, int, string, void, square, circle, image,
    text, background]

/-- The element types that own storage, in the order of their segments. -/
def storable : List Element :=
  [float, char, bool, int, string, square, circle, image, text, background]

/-- The word by which source text names the type. -/
def keyword : Element → String
  | float => "float"
  | char => "char"
  | bool => "bool"
  | int => "int"
  | string => "string"
  | void => "void"
  | square => "square"
  | circle => "circle"
  | image => "image"
  | text => "text"
  | background => "background"

/-- The type that a word names. -/
def ofKeyword? (word : String) : Option Element :=
  all.find? fun element => element.keyword == word

/-- The type's number, as instructions carry it. -/
def code : Element → Nat
  | float => 1
  | char => 2
  | bool => 3
  | int => 4
  | string => 5
  | void => 6
  | square => 7
  | circle => 8
  | image => 9
  | text => 10
  | background => 11

/-- The type with a given number. -/
def ofCode? (code : Int) : Option Element :=
  all.find? fun element => (element.code : Int) == code

/-- The number as one hexadecimal digit, the letter of the type. -/
def letter (element : Element) : Char :=
  Nat.digitChar element.code

/-- The type with a given letter. -/
def ofLetter? (letter : Char) : Option Element :=
  all.find? fun element => element.letter == letter

/-- Drawable objects, which are stored as blocks of attributes. -/
def isObject : Element → Bool
  | square | circle | image | text | background => true
  | float | char | bool | int | string | void => false

/-- The types that take part in arithmetic. -/
def isNumeric : Element → Bool
  | int | float => true
  | _ => false

/-- The index of the type's segment in a region of storage. -/
def segment? : Element → Option Nat
  | float => some 0
  | char => some 1
  | bool => some 2
  | int => some 3
  | string => some 4
  | square => some 5
  | circle => some 6
  | image => some 7
  | text => some 8
  | background => some 9
  | void => none

/-- The type whose segment has a given index. -/
def ofSegment? (index : Nat) : Option Element :=
  storable[index]?

@[simp]
theorem ofKeyword?_keyword (element : Element) :
    ofKeyword? element.keyword = some element := by
  cases element <;> rfl

@[simp]
theorem ofCode?_code (element : Element) :
    ofCode? element.code = some element := by
  cases element <;> rfl

@[simp]
theorem ofLetter?_letter (element : Element) :
    ofLetter? element.letter = some element := by
  cases element <;> rfl

/-- Every segment belongs to one element. -/
theorem ofSegment?_of_segment? {element : Element} {index : Nat}
    (segment : element.segment? = some index) :
    ofSegment? index = some element := by
  cases element <;> cases segment <;> rfl

end Element

end Easel
