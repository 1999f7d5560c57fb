import GraphQuery.Binary64

/-! # JSON

A JSON value is a tree. Members of an object keep their order and may repeat a name; who needs a
map makes one with `Json.sortedMembers`. Integers that fit sixty-four bits, with a sign or without
one, are kept apart from all other numbers. A text can follow the grammar of JSON and yet hold
something that is no value, such as a number beyond the range of floats; that part of the tree is
`Json.invalid`, and it is up to the reader of the tree whether the part matters. -/

namespace GraphQuery

/-- **A JSON value.** -/
inductive Json where
  /-- Null. -/
  | null
  /-- A truth value. -/
  | bool (value : Bool)
  /-- An integer. -/
  | int (value : Int)
  /-- Any other number. -/
  | float (value : Binary64)
  /-- A string. -/
  | string (text : String)
  /-- An array. -/
  | array (items : List Json)
  /-- An object, by its members in order. -/
  | object (members : List (String × Json))
  /-- What follows the grammar and has no value. -/
  | invalid
deriving Inhabited

namespace Json

/-- Whether the bytes of one text come before those of another. -/
def bytesLt (a b : String) : Bool := a < b

/-- Puts a member into a list sorted by names; a name that is there takes the new value. -/
def insertSorted {α : Type u} (name : String) (value : α) : List (String × α) → List (String × α)
  | [] => [(name, value)]
  | (n, v) :: rest =>
    if n = name then (name, value) :: rest
    else if bytesLt name n then (name, value) :: (n, v) :: rest
    else (n, v) :: insertSorted name value rest

/-- The members of an object as a map: sorted by name in byte order, the last of equals kept. -/
def sortedMembers {α : Type u} (members : List (String × α)) : List (String × α) :=
  members.foldl (fun acc member => insertSorted member.1 member.2 acc) []

end Json

end GraphQuery
