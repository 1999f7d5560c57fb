import GraphQuery.Json
import GraphQuery.Binary64.Shortest

/-! # Writing JSON

`Json.compact` writes a value without blanks, `Json.pretty` on lines indented by two blanks. In
strings the quote, the backslash and the control characters are escaped, by a letter where there
is one and by four lower-case hexadecimal digits otherwise; nothing else is. A float is written
with the fewest digits that identify it: in plain notation, always with a point, if its
scientific exponent is from -5 to 15, and in scientific notation with a signed exponent
otherwise. What is no finite number is written as null, and so is what has no value. -/

namespace GraphQuery

namespace Json

/-- The lower-case hexadecimal digit of a number below sixteen. -/
def hexDigit (n : Nat) : Char := "0123456789abcdef".toList.getD n '0'

/-- A character as it stands in a string. -/
def escapeChar (c : Char) : List Char :=
  match c with
  | '"' => ['\\', '"']
  | '\\' => ['\\', '\\']
  | '\x08' => ['\\', 'b']
  | '\x0c' => ['\\', 'f']
  | '\n' => ['\\', 'n']
  | '\r' => ['\\', 'r']
  | '\t' => ['\\', 't']
  | c =>
    if c.toNat < 0x20 then ['\\', 'u', '0', '0', hexDigit (c.toNat / 16), hexDigit (c.toNat % 16)]
    else [c]

/-- A string with its quotes. -/
def quoteString (text : String) : List Char := '"' :: text.toList.flatMap escapeChar ++ ['"']

/-- The decimal digits of a natural number. -/
def natDigits (n : Nat) : List Char := Nat.toDigits 10 n

/-- An integer with its sign. -/
def intDigits (n : Int) : List Char :=
  if n < 0 then '-' :: natDigits n.natAbs else natDigits n.natAbs

/-- The decimal `digits · 10^exponent` in plain notation, with a point. -/
def plainDigits (digits : List Char) (exponent : Int) : List Char :=
  let point := (digits.length : Int) + exponent
  if 0 ≤ exponent then digits ++ List.replicate exponent.toNat '0' ++ ['.', '0']
  else if 0 < point then digits.take point.toNat ++ '.' :: digits.drop point.toNat
  else '0' :: '.' :: List.replicate (-point).toNat '0' ++ digits

/-- The exponent of the scientific notation. -/
def exponentSuffix (scientific : Int) : List Char :=
  let digits := natDigits scientific.natAbs
  if scientific < 0 then 'e' :: '-' :: digits else 'e' :: '+' :: digits

/-- The decimal `digits · 10^exponent` in scientific notation. -/
def scientificDigits (digits : List Char) (exponent : Int) : List Char :=
  let suffix := exponentSuffix (exponent + digits.length - 1)
  match digits with
  | [] => suffix
  | [d] => d :: suffix
  | d :: rest => d :: '.' :: rest ++ suffix

/-- A positive finite number. -/
def positiveDigits (x : Binary64) : List Char :=
  let (significand, exponent) := x.shortest
  let digits := natDigits significand
  let scientific := exponent + digits.length - 1
  if -5 ≤ scientific ∧ scientific ≤ 15 then plainDigits digits exponent
  else scientificDigits digits exponent

/-- A float. -/
def floatDigits (x : Binary64) : List Char :=
  if x.isFinite then
    let sign := if x.isNegative then ['-'] else []
    sign ++ if x.magnitude = 0 then ['0', '.', '0'] else positiveDigits x
  else ['n', 'u', 'l', 'l']

/-- A value that holds no other value. -/
def scalar : Json → List Char
  | null | invalid => ['n', 'u', 'l', 'l']
  | bool true => ['t', 'r', 'u', 'e']
  | bool false => ['f', 'a', 'l', 's', 'e']
  | int value => intDigits value
  | float value => floatDigits value
  | string text => quoteString text
  | array _ => ['[', ']']
  | object _ => ['{', '}']

mutual

/-- A value without blanks. -/
def write : Json → List Char
  | array items => '[' :: writeItems items ++ [']']
  | object members => '{' :: writeMembers members ++ ['}']
  | null => scalar null
  | bool value => scalar (bool value)
  | int value => scalar (int value)
  | float value => scalar (float value)
  | string text => scalar (string text)
  | invalid => scalar invalid

/-- Items with commas between them. -/
def writeItems : List Json → List Char
  | [] => []
  | [item] => write item
  | item :: next :: rest => write item ++ ',' :: writeItems (next :: rest)

/-- Members with commas between them. -/
def writeMembers : List (String × Json) → List Char
  | [] => []
  | [(name, value)] => quoteString name ++ ':' :: write value
  | (name, value) :: next :: rest =>
    quoteString name ++ ':' :: write value ++ ',' :: writeMembers (next :: rest)

end

/-- **The compact text of a value.** -/
def compact (json : Json) : String := String.ofList (write json)

/-- A new line indented by two blanks for each level. -/
def newLine (level : Nat) : List Char := '\n' :: List.replicate (2 * level) ' '

mutual

/-- A value on indented lines, as the `level`-th level of a text. -/
def writePretty (level : Nat) : Json → List Char
  | array [] => ['[', ']']
  | array (item :: items) =>
    '[' :: newLine (level + 1) ++ writePretty (level + 1) item
      ++ writePrettyItems (level + 1) items ++ newLine level ++ [']']
  | object [] => ['{', '}']
  | object ((name, value) :: members) =>
    '{' :: newLine (level + 1) ++ quoteString name ++ ':' :: ' ' :: writePretty (level + 1) value
      ++ writePrettyMembers (level + 1) members ++ newLine level ++ ['}']
  | null => scalar null
  | bool value => scalar (bool value)
  | int value => scalar (int value)
  | float value => scalar (float value)
  | string text => scalar (string text)
  | invalid => scalar invalid

/-- The items after the first, each after a comma and on a line of its own. -/
def writePrettyItems (level : Nat) : List Json → List Char
  | [] => []
  | item :: rest =>
    ',' :: newLine level ++ writePretty level item ++ writePrettyItems level rest

/-- The members after the first, each after a comma and on a line of its own. -/
def writePrettyMembers (level : Nat) : List (String × Json) → List Char
  | [] => []
  | (name, value) :: rest =>
    ',' :: newLine level ++ quoteString name ++ ':' :: ' ' :: writePretty level value
      ++ writePrettyMembers level rest

end

/-- **The indented text of a value.** -/
def pretty (json : Json) : String := String.ofList (writePretty 0 json)

end Json

end GraphQuery
