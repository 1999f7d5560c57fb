import GraphQuery.Text.CharacterClass.Combining
import GraphQuery.Text.CharacterClass.Unassigned

/-! # Quoted text

A message shows a text that comes from outside, such as a path, in double quotes. What a reader
could not see there, or could not tell from something else, is escaped: the quote and the backslash
by a backslash, four controls by a letter, and everything else that is not **printable** by the
number of its code point. A single quote stands as it is. -/

namespace GraphQuery

/-- **What leaves no mark**: controls, separators other than the blank, format controls, the
fillers of Hangul, and the code points that are left to private agreement. -/
def CharacterClass.invisible : CharacterClass where
  ranges := [
   (0x0, 0x1f), (0x7f, 0xa0), (0xad, 0xad), (0x600, 0x605), (0x61c, 0x61c), (0x6dd, 0x6dd),
   (0x70f, 0x70f), (0x890, 0x891), (0x8e2, 0x8e2), (0x115f, 0x1160), (0x1680, 0x1680),
   (0x180e, 0x180e), (0x2000, 0x200f), (0x2028, 0x202f), (0x205f, 0x2064), (0x2066, 0x206f),
   (0x3000, 0x3000), (0x3164, 0x3164), (0xe000, 0xf8ff), (0xfeff, 0xfeff), (0xffa0, 0xffa0),
   (0xfff9, 0xfffb), (0x110bd, 0x110bd), (0x110cd, 0x110cd), (0x13430, 0x1343f), (0x1bca0, 0x1bca3),
   (0x1d173, 0x1d17a), (0xe0001, 0xe0001), (0xe0020, 0xe007f), (0xf0000, 0xffffd),
   (0x100000, 0x10fffd)]

/-- **Whether a character can be seen** and told from others on its own. -/
def isPrintable (c : Char) : Bool :=
  !(CharacterClass.invisible.contains c || CharacterClass.combining.contains c
    || CharacterClass.unassigned.contains c)

/-- A character by the number of its code point. -/
def codePointEscape (c : Char) : List Char :=
  '\\' :: 'u' :: '{' :: Nat.toDigits 16 c.toNat ++ ['}']

/-- A character as it stands in quoted text. -/
def quotedChar (c : Char) : List Char :=
  match c with
  | '\x00' => ['\\', '0']
  | '\t' => ['\\', 't']
  | '\n' => ['\\', 'n']
  | '\r' => ['\\', 'r']
  | '"' => ['\\', '"']
  | '\\' => ['\\', '\\']
  | c => if isPrintable c then [c] else codePointEscape c

/-- **A text in quotes.** -/
def inQuotes (text : String) : String :=
  String.ofList ('"' :: text.toList.flatMap quotedChar ++ ['"'])

end GraphQuery
