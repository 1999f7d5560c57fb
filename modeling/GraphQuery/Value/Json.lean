import GraphQuery.Value
import GraphQuery.Text.Integer
import GraphQuery.Json.Writer
import GraphQuery.Json.Reader
import GraphQuery.Document.Json

/-! # Values as JSON

Bytes are written as an array of numbers, a stream as null, and a record as an object of its
fields under their serialized names. Reading makes integers of the numbers that are integers of
sixty-four bits, and floats of all others; objects come out sorted by their keys. -/

namespace GraphQuery.Value

mutual

/-- **A value as JSON.** -/
def toJson : Value → Json
  | null | stream _ => .null
  | boolean value => .bool value
  | int value => .int value.toInt
  | float value => .float value
  | string text => .string text
  | .bytes data => .array (data.map fun byte => .int byte.toNat)
  | list items => .array (itemsToJson items)
  | object entries => .object (entriesToJson entries)
  | record _ fields => .object (fieldsToJson fields)

/-- Items as JSON. -/
def itemsToJson : List Value → List Json
  | [] => []
  | item :: rest => toJson item :: itemsToJson rest

/-- Entries as JSON. -/
def entriesToJson : List (String × Value) → List (String × Json)
  | [] => []
  | (key, value) :: rest => (key, toJson value) :: entriesToJson rest

/-- Fields of a record as JSON. -/
def fieldsToJson : List (FieldDescriptor × Value) → List (String × Json)
  | [] => []
  | (descriptor, value) :: rest =>
    (descriptor.serializedName, toJson value) :: fieldsToJson rest

end

/-- The value of an integer: a float if it is out of the range of sixty-four bits with a sign. -/
def ofInteger (value : Int) : Value :=
  if Integer.minValue ≤ value ∧ value ≤ Integer.maxValue then int (Int64.ofInt value)
  else float (Binary64.ofInt value)

mutual

/-- **A value from JSON**; nothing in it may be invalid. -/
def ofJson? : Json → Option Value
  | .null => some null
  | .bool value => some (boolean value)
  | .int value => some (ofInteger value)
  | .float value => some (float value)
  | .string text => some (string text)
  | .array items => (itemsOfJson? items).map list
  | .object members =>
    (membersOfJson? members).map fun entries => object (Json.sortedMembers entries)
  | .invalid => none

/-- Items from JSON. -/
def itemsOfJson? : List Json → Option (List Value)
  | [] => some []
  | item :: rest => do return (← ofJson? item) :: (← itemsOfJson? rest)

/-- Members of an object from JSON. -/
def membersOfJson? : List (String × Json) → Option (List (String × Value))
  | [] => some []
  | (name, value) :: rest => do return (name, ← ofJson? value) :: (← membersOfJson? rest)

end

/-- A value from a JSON text, which may nest as deep as `Json.maxDepth`. -/
def ofJsonText? (text : String) : Option Value := do
  let json ← Json.parse? text
  if json.depth ≤ Json.maxDepth then ofJson? json else none

end GraphQuery.Value
