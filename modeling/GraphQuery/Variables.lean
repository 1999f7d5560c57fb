import GraphQuery.Value.Json

/-! # Variables

Variables are named values that come with a request. Besides being set by name, a value can be
put at a **path**: dots separate the name of a variable from the segments that lead into it, and
`variables.` in front of a path is dropped. A segment that is an index leads into a list, which is
padded with nulls up to that index; any other segment leads into an object. Whatever does not fit
a segment is replaced by a fresh list or object. -/

namespace GraphQuery

/-- **Variables** of a request, in the order of their names' first appearance. -/
structure Variables where
  /-- The named values. -/
  entries : Entries Value

/-- **A segment of a path.** -/
inductive Segment where
  /-- A place in a list. -/
  | index (index : Nat)
  /-- A key of an object. -/
  | key (key : String)
deriving DecidableEq

/-- **Why a value cannot be put at a path.** -/
inductive PathFault where
  /-- No list is long enough to have a place of this index. -/
  | indexTooLarge (index : Nat)
deriving DecidableEq

namespace Segment

/-- The largest index that can be written, in sixty-four bits. -/
def maxIndex : Nat := 0xffffffffffffffff

/-- The value of a run of decimal digits. -/
def digitsValue (digits : List Char) : Nat :=
  digits.foldl (fun value c => 10 * value + (c.toNat - '0'.toNat)) 0

/-- An index: digits, with a plus sign before them or not. -/
def index? (text : List Char) : Option Nat :=
  let digits := match text with
    | '+' :: digits => digits
    | digits => digits
  if digits = [] ∨ !digits.all Char.isDigit ∨ maxIndex < digitsValue digits then none
  else some (digitsValue digits)

/-- The segment that a text stands for. -/
def ofText (text : List Char) : Segment :=
  match index? text with
  | some i => index i
  | none => key (String.ofList text)

end Segment

/-- The stretches of a text between dots. -/
def splitDots : List Char → List (List Char)
  | [] => [[]]
  | c :: cs =>
    if c = '.' then [] :: splitDots cs
    else
      match splitDots cs with
      | [] => [[c]]
      | first :: rest => (c :: first) :: rest

/-- What may stand in front of a path. -/
def pathHeading : String := "variables."

/-- The name of a variable and the segments after it. -/
def splitPath (path : String) : String × List Segment :=
  let cs := path.toList
  let heading := pathHeading.toList
  let cs := if heading.isPrefixOf cs then cs.drop heading.length else cs
  match splitDots cs with
  | [] => ("", [])
  | name :: segments => (String.ofList name, segments.map Segment.ofText)

namespace Value

/-- A list with a value at an index, padded with nulls if it was shorter. -/
def setPadded (items : List Value) (index : Nat) (f : Value → Value) : List Value :=
  let padded := items ++ List.replicate (index + 1 - items.length) null
  padded.modify index f

/-- **A value with another one put at a place inside it.** -/
def assign (new : Value) : List Segment → Value → Value
  | [], _ => new
  | .index i :: rest, value =>
    let items := match value with
      | list items => items
      | _ => []
    list (setPadded items i (assign new rest))
  | .key k :: rest, value =>
    let entries := match value with
      | object entries => entries
      | _ => []
    object (Entries.upsert k (fun old => assign new rest (old.getD null)) entries)

end Value

namespace Variables

/-- No variables. -/
def empty : Variables := ⟨[]⟩

/-- Variables from pairs, the last value of a name winning. -/
def ofPairs (pairs : List (String × Value)) : Variables := ⟨Entries.ofPairs pairs⟩

/-- The value of a variable. -/
def get? (given : Variables) (name : String) : Option Value :=
  Entries.get? given.entries name

/-- Whether a variable has a value. -/
def contains (given : Variables) (name : String) : Bool :=
  Entries.contains given.entries name

/-- Sets a variable. -/
def insert (given : Variables) (name : String) (value : Value) : Variables :=
  ⟨Entries.insert given.entries name value⟩

/-- Variables are equal when the same names have equal values, in any order. -/
def equals (a b : Variables) : Bool := Value.equals (.object a.entries) (.object b.entries)

/-- The first index among segments for which no list is long enough. -/
def overlongIndex? (segments : List Segment) : Option Nat :=
  segments.findSome? fun
    | .index i => if Segment.maxIndex ≤ i then some i else none
    | .key _ => none

/-- **Puts a value at a path.** A list has a length of sixty-four bits, so the largest index has
no place in any. -/
def insertAtPath (given : Variables) (path : String) (value : Value) :
    Except PathFault Variables :=
  let (name, segments) := splitPath path
  match overlongIndex? segments with
  | some i => .error (.indexTooLarge i)
  | none =>
    .ok ⟨Entries.upsert name (fun old => Value.assign value segments (old.getD .null))
      given.entries⟩

/-- Variables from the members of a JSON object; any other value gives none. -/
def ofValue : Value → Variables
  | .object entries => ⟨entries⟩
  | _ => empty

/-- Variables from a JSON text. -/
def ofJsonText? (text : String) : Option Variables := (Value.ofJsonText? text).map ofValue

end Variables

end GraphQuery
