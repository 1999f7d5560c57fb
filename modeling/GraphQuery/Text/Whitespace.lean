import GraphQuery.Text.CharacterClass

/-! # White space

White space is the Unicode class of that name: the blank and the line controls of ASCII, and the
spaces and separators beyond it. `trim` takes it off both ends of a text. -/

namespace GraphQuery

/-- The class of white space. -/
def CharacterClass.whitespace : CharacterClass where
  ranges := [
   (0x09, 0x0d), (0x20, 0x20), (0x85, 0x85), (0xa0, 0xa0), (0x1680, 0x1680), (0x2000, 0x200a),
   (0x2028, 0x2029), (0x202f, 0x202f), (0x205f, 0x205f), (0x3000, 0x3000)]

/-- **White space** in the sense of Unicode. -/
def isWhitespace (c : Char) : Bool := CharacterClass.whitespace.contains c

/-- A text without the white space at its end. -/
def trimRight (text : String) : String :=
  String.ofList (text.toList.reverse.dropWhile isWhitespace).reverse

/-- **A text without the white space at its ends.** -/
def trim (text : String) : String :=
  trimRight (String.ofList (text.toList.dropWhile isWhitespace))

end GraphQuery
