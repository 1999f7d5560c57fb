import GraphQuery.Json.Number

/-! # Reading JSON

`Json.parse?` reads a text that holds one JSON value and blanks around it. Objects keep all their
members in order, repeated names too. A string may escape a character beyond the basic plane as a
pair of units; a string with half a pair is invalid, and so is an object with such a name. How deep
values nest is not limited here; `Json.depth` lets a caller set a limit of its own. -/

namespace GraphQuery

namespace Json

/-- Blanks may stand around every value, bracket, comma and colon. -/
def isBlank (c : Char) : Bool := c = ' ' || c = '\n' || c = '\t' || c = '\r'

/-- The text after leading blanks. -/
def skipBlanks (cs : List Char) : List Char := cs.dropWhile isBlank

/-- The value of a hexadecimal digit. -/
def hexValue? (c : Char) : Option Nat :=
  if c.isDigit then some (c.toNat - '0'.toNat)
  else if 'a' ≤ c ∧ c ≤ 'f' then some (c.toNat - 'a'.toNat + 10)
  else if 'A' ≤ c ∧ c ≤ 'F' then some (c.toNat - 'A'.toNat + 10)
  else none

/-- The value of four hexadecimal digits. -/
def hexUnit? (a b c d : Char) : Option Nat := do
  let a ← hexValue? a
  let b ← hexValue? b
  let c ← hexValue? c
  let d ← hexValue? d
  return ((a * 16 + b) * 16 + c) * 16 + d

/-- The character that a letter after a backslash stands for. -/
def unescape? (c : Char) : Option Char :=
  match c with
  | '"' => some '"'
  | '\\' => some '\\'
  | '/' => some '/'
  | 'b' => some '\x08'
  | 'f' => some '\x0c'
  | 'n' => some '\n'
  | 'r' => some '\r'
  | 't' => some '\t'
  | _ => none

/-- Whether a unit is the first of a pair. -/
def isHighSurrogate (unit : Nat) : Bool := 0xd800 ≤ unit && unit < 0xdc00

/-- Whether a unit is the second of a pair. -/
def isLowSurrogate (unit : Nat) : Bool := 0xdc00 ≤ unit && unit < 0xe000

/-- The character of a single unit; half a pair has none. -/
def unitChar? (unit : Nat) : Option Char :=
  if isHighSurrogate unit || isLowSurrogate unit then none else some (Char.ofNat unit)

/-- The character of a pair of units. -/
def pairChar (high low : Nat) : Char :=
  Char.ofNat (0x10000 + (high - 0xd800) * 0x400 + (low - 0xdc00))

/-- Reads the characters of a string up to and with its closing quote, with nothing in the place
of half a pair. -/
def readChars : List Char → Option (List (Option Char) × List Char)
  | [] => none
  | '"' :: rest => some ([], rest)
  | '\\' :: 'u' :: a :: b :: c :: d :: '\\' :: 'u' :: e :: f :: g :: h :: rest =>
    match hexUnit? a b c d, hexUnit? e f g h with
    | some unit, some next =>
      if isHighSurrogate unit && isLowSurrogate next then
        (readChars rest).map fun (chars, after) => (some (pairChar unit next) :: chars, after)
      else
        (readChars ('\\' :: 'u' :: e :: f :: g :: h :: rest)).map fun (chars, after) =>
          (unitChar? unit :: chars, after)
    | _, _ => none
  | '\\' :: 'u' :: a :: b :: c :: d :: rest =>
    match hexUnit? a b c d with
    | none => none
    | some unit => (readChars rest).map fun (chars, after) => (unitChar? unit :: chars, after)
  | '\\' :: c :: rest =>
    match unescape? c with
    | none => none
    | some c => (readChars rest).map fun (chars, after) => (some c :: chars, after)
  | c :: rest =>
    if c.toNat < 0x20 ∨ c = '\\' then none
    else (readChars rest).map fun (chars, after) => (some c :: chars, after)

/-- Reads a string after its opening quote; there is no text if it has half a pair. -/
def readString (cs : List Char) : Option (Option String × List Char) :=
  (readChars cs).map fun (chars, rest) => ((chars.mapM id).map String.ofList, rest)

/-- Reads items with commas between them, up to and with a closing bracket. -/
def separated {α : Type} (item : List Char → Option (α × List Char)) (close : Char) :
    (budget : Nat) → List Char → Option (List α × List Char)
  | 0, _ => none
  | budget + 1, cs =>
    match item cs with
    | none => none
    | some (first, cs) =>
      match skipBlanks cs with
      | [] => none
      | c :: rest =>
        if c = ',' then
          (separated item close budget rest).map fun (items, after) => (first :: items, after)
        else if c = close then some ([first], rest)
        else none

/-- Reads what stands between brackets: nothing, or items with commas between them. -/
def bracketed {α : Type} (item : List Char → Option (α × List Char)) (close : Char)
    (budget : Nat) (cs : List Char) : Option (List α × List Char) :=
  match skipBlanks cs with
  | [] => none
  | c :: rest => if c = close then some ([], rest) else separated item close budget (c :: rest)

/-- Reads a member of an object. -/
def readMember (value : List Char → Option (Json × List Char)) (cs : List Char) :
    Option ((Option String × Json) × List Char) :=
  match skipBlanks cs with
  | '"' :: cs =>
    match readString cs with
    | none => none
    | some (name, cs) =>
      match skipBlanks cs with
      | ':' :: cs => (value cs).map fun (value, rest) => ((name, value), rest)
      | _ => none
  | _ => none

/-- The string with a text, if there is a text. -/
def ofText : Option String → Json
  | some text => .string text
  | none => .invalid

/-- The object with some members, if all of them have names. -/
def ofMembers (members : List (Option String × Json)) : Json :=
  match members.mapM fun member => member.1.map fun name => (name, member.2) with
  | some members => .object members
  | none => .invalid

/-- Reads a value at the head of a text, which nests at most `levels` deep and has at most
`budget` parts in each of its arrays and objects. -/
def readValue (budget : Nat) : (levels : Nat) → List Char → Option (Json × List Char)
  | 0, _ => none
  | levels + 1, cs =>
    match skipBlanks cs with
    | 'n' :: 'u' :: 'l' :: 'l' :: rest => some (.null, rest)
    | 't' :: 'r' :: 'u' :: 'e' :: rest => some (.bool true, rest)
    | 'f' :: 'a' :: 'l' :: 's' :: 'e' :: rest => some (.bool false, rest)
    | '"' :: rest => (readString rest).map fun (text, rest) => (ofText text, rest)
    | '[' :: rest =>
      (bracketed (readValue budget levels) ']' budget rest).map fun (items, rest) =>
        (.array items, rest)
    | '{' :: rest =>
      (bracketed (readMember (readValue budget levels)) '}' budget rest).map fun (members, rest) =>
        (ofMembers members, rest)
    | cs => readNumber cs

/-- **Reads a JSON text.** -/
def parse? (text : String) : Option Json :=
  let cs := text.toList
  let bound := cs.length + 1
  match readValue bound bound cs with
  | some (json, rest) => if skipBlanks rest = [] then some json else none
  | none => none

mutual

/-- How deep arrays and objects nest in a value. -/
def depth : Json → Nat
  | array items => 1 + depthItems items
  | object members => 1 + depthMembers members
  | null | bool _ | int _ | float _ | string _ | invalid => 0

/-- How deep arrays and objects nest in a list of values. -/
def depthItems : List Json → Nat
  | [] => 0
  | item :: rest => max (depth item) (depthItems rest)

/-- How deep arrays and objects nest in the values of members. -/
def depthMembers : List (String × Json) → Nat
  | [] => 0
  | (_, value) :: rest => max (depth value) (depthMembers rest)

end

end Json

end GraphQuery
