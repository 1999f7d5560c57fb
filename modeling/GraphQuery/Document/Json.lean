import GraphQuery.Document
import GraphQuery.Json.Writer
import GraphQuery.Json.Reader

/-! # Documents as JSON

A document is written as a JSON tree in which a choice is an object with one member, named for
the alternative, and a node is an object of its parts. Reading takes what writing gives, and is
lenient in four ways: parts may come in any order, parts of other names are passed over, an
optional part may be missing, and a node may be an array of its parts in their order. A part that
comes twice is refused. Reading enters at most a given number of nested arrays and objects; what it
passes over may nest deeper, and may be invalid. -/

namespace GraphQuery

open Json

namespace OperationKind

/-- An operation's kind as JSON. -/
def toJson (kind : OperationKind) : Json := .string kind.keyword

end OperationKind

namespace Nullability

/-- The word for a nullability. -/
def word : Nullability → String
  | nonNull => "NonNull"
  | nullable => "Nullable"

/-- The nullability of a word. -/
def ofWord? (text : String) : Option Nullability :=
  if text = "NonNull" then some nonNull else if text = "Nullable" then some nullable else none

end Nullability

/-- An optional text as JSON. -/
def optionalText (text : Option String) : Json := (text.map Json.string).getD .null

namespace TypeReference

/-- A type reference as JSON. -/
def toJson : TypeReference → Json
  | named name nullability =>
    .object [("Named", .object [("name", .string name), ("nullability", .string nullability.word)])]
  | list element nullability =>
    let inner := match element with
      | some element => element.toJson
      | none => .null
    .object [("List",
      .object [("element_type", inner), ("nullability", .string nullability.word)])]

end TypeReference

namespace Literal

mutual

/-- A literal as JSON. -/
def toJson : Literal → Json
  | array items => .object [("Array", .array (itemsToJson items))]
  | boolean value => .object [("Boolean", .bool value)]
  | enum name => .object [("Enum", .string name)]
  | illegal text => .object [("Illegal", .string text)]
  | int digits => .object [("Int", .string digits)]
  | object fields => .object [("Object", .object (fieldsToJson fields))]
  | string contents => .object [("String", .string contents)]
  | variableRef name => .object [("Variable", .string name)]

/-- The items of a list as JSON. -/
def itemsToJson : List Literal → List Json
  | [] => []
  | item :: rest => toJson item :: itemsToJson rest

/-- The fields of an object as JSON. -/
def fieldsToJson : List (String × Literal) → List (String × Json)
  | [] => []
  | (key, value) :: rest => (key, toJson value) :: fieldsToJson rest

end

end Literal

/-- An argument as JSON. -/
def Argument.toJson (argument : Argument) : Json :=
  .object [("name", .string argument.name), ("value", argument.value.toJson)]

/-- A selection set as JSON, given its fields. -/
def selectionsToJson (fields : List Json) : Json := .object [("selections", .array fields)]

namespace Field

mutual

/-- A selected field as JSON. -/
def toJson : Field → Json
  | ⟨name, arguments, selection⟩ =>
    .object [("Field", .object [("name", .string name),
      ("arguments", .array (arguments.map Argument.toJson)),
      ("selection_set", nestedToJson selection)])]

/-- A nested selection as JSON. -/
def nestedToJson : Option (List Field) → Json
  | none => .null
  | some fields => selectionsToJson (fieldsToJson fields)

/-- Fields as JSON. -/
def fieldsToJson : List Field → List Json
  | [] => []
  | field :: rest => toJson field :: fieldsToJson rest

end

end Field

/-- A declared variable as JSON. -/
def VariableDefinition.toJson (definition : VariableDefinition) : Json :=
  .object [("variable", .string definition.name),
    ("type_annotation", (definition.type.map TypeReference.toJson).getD .null)]

/-- An operation as JSON. -/
def Operation.toJson (operation : Operation) : Json :=
  .object [("operation", operation.kind.toJson), ("name", optionalText operation.name),
    ("variable_definitions", .array (operation.declared.map VariableDefinition.toJson)),
    ("selection_set", selectionsToJson (Field.fieldsToJson operation.selection))]

/-- A type definition as JSON. -/
def TypeDefinition.toJson (definition : TypeDefinition) : Json :=
  .object [("name", .string definition.name),
    ("fields", .array (definition.fields.map fun name => .object [("name", .string name)]))]

/-- A definition as JSON. -/
def Definition.toJson : Definition → Json
  | .operation op => .object [("Operation", op.toJson)]
  | .typeDefinition type => .object [("Type", type.toJson)]

/-- **A document as JSON.** -/
def Document.toJson (document : Document) : Json :=
  .object [("definitions", .array (document.definitions.map Definition.toJson))]

/-! ## Reading -/

namespace Json

/-- The text of a string. -/
def text? : Json → Option String
  | .string text => some text
  | _ => none

/-- **The parts of a node** by their names. A part that is missing is `none`; in an array no part
is missing, and in an object none comes twice. -/
def parts? (names : List String) : Json → Option (List (Option Json))
  | .object members =>
    names.mapM fun name =>
      match members.filter fun member => member.1 = name with
      | [] => some none
      | [member] => some (some member.2)
      | _ => none
  | .array items => if items.length = names.length then some (items.map some) else none
  | _ => none

/-- The word of a choice without content: the word itself, or the name of a single null member,
for which one level is entered. -/
def choice? (levels : Nat) : Json → Option String
  | .string word => some word
  | .object [(word, .null)] => if levels = 0 then none else some word
  | _ => none

/-- Reads the items of an array, for which one level is entered. -/
def list? {α : Type} (item : Nat → Json → Option α) : (levels : Nat) → Json → Option (List α)
  | levels + 1, .array items => items.mapM (item levels)
  | _, _ => none

/-- Reads an optional part, for which null stands if it is not there. -/
def optional? {α : Type} (read : Json → Option α) : Option Json → Option (Option α)
  | none | some .null => some none
  | some json => (read json).map some

end Json

namespace TypeReference

/-- Reads a type reference. -/
def ofJson? : (levels : Nat) → Json → Option TypeReference
  | levels + 2, .object [(tag, content)] =>
    if tag = "Named" then
      match parts? ["name", "nullability"] content with
      | some [some name, some nullability] => do
        let name ← name.text?
        let nullability ← (nullability.choice? levels).bind Nullability.ofWord?
        return named name nullability
      | _ => none
    else if tag = "List" then
      match parts? ["element_type", "nullability"] content with
      | some [element, some nullability] => do
        let element ← optional? (ofJson? levels) element
        let nullability ← (nullability.choice? levels).bind Nullability.ofWord?
        return list element nullability
      | _ => none
    else none
  | _, _ => none

end TypeReference

namespace Literal

/-- The alternatives that hold one text. -/
def ofText? (tag text : String) : Option Literal :=
  if tag = "Enum" then some (enum text)
  else if tag = "Illegal" then some (illegal text)
  else if tag = "Int" then some (int text)
  else if tag = "String" then some (string text)
  else if tag = "Variable" then some (variableRef text)
  else none

/-- Reads a literal. -/
def ofJson? : (levels : Nat) → Json → Option Literal
  | levels + 1, .object [(tag, content)] =>
    match content with
    | .string text => ofText? tag text
    | .bool value => if tag = "Boolean" then some (boolean value) else none
    | .array items =>
      match levels with
      | 0 => none
      | levels + 1 => if tag = "Array" then (items.mapM (ofJson? levels)).map array else none
    | .object members =>
      match levels with
      | 0 => none
      | levels + 1 =>
        if tag = "Object" then
          (members.mapM fun member => (ofJson? levels member.2).map fun value =>
            (member.1, value)).map fun fields => object (Entries.ofPairs fields)
        else none
    | _ => none
  | _, _ => none

end Literal

/-- Reads an argument. -/
def Argument.ofJson? : (levels : Nat) → Json → Option Argument
  | levels + 1, json =>
    match parts? ["name", "value"] json with
    | some [some name, some value] => do
      let name ← name.text?
      let value ← Literal.ofJson? levels value
      return ⟨name, value⟩
    | _ => none
  | 0, _ => none

/-- Reads a selection set, for which two levels are entered, given how its fields are read. -/
def selections? (field : Json → Option Field) (json : Json) : Option SelectionSet :=
  match parts? ["selections"] json with
  | some [some (.array items)] => items.mapM field
  | _ => none

namespace Field

/-- Reads the parts of a selected field, given how a nested selection is read. -/
def ofParts? (nested : Json → Option SelectionSet) (levels : Nat) (json : Json) : Option Field :=
  match parts? ["name", "arguments", "selection_set"] json with
  | some [some name, some arguments, selection] => do
    let name ← name.text?
    let arguments ← list? Argument.ofJson? levels arguments
    let selection ← optional? nested selection
    return ⟨name, arguments, selection⟩
  | _ => none

/-- **Reads a selection**, which is a field by its tag; two more levels are left for the fields
nested in it. -/
def ofTagged? : (levels : Nat) → Json → Option Field
  | levels + 4, .object [(tag, content)] =>
    if tag = "Field" then ofParts? (selections? (ofTagged? levels)) (levels + 2) content else none
  | levels + 2, .object [(tag, content)] =>
    if tag = "Field" then ofParts? (fun _ => none) levels content else none
  | _, _ => none

end Field

/-- Reads a selection set of fields. -/
def selectionSet? : (levels : Nat) → Json → Option SelectionSet
  | levels + 2, json => selections? (Field.ofTagged? levels) json
  | _, _ => none

/-- Reads a declared variable. -/
def VariableDefinition.ofJson? : (levels : Nat) → Json → Option VariableDefinition
  | levels + 1, json =>
    match parts? ["variable", "type_annotation"] json with
    | some [some name, type] => do
      let name ← name.text?
      let type ← optional? (TypeReference.ofJson? levels) type
      return ⟨name, type⟩
    | _ => none
  | 0, _ => none

/-- Reads an operation. -/
def Operation.ofJson? : (levels : Nat) → Json → Option Operation
  | levels + 1, json =>
    match parts? ["operation", "name", "variable_definitions", "selection_set"] json with
    | some [some kind, name, some declared, some selection] => do
      let kind ← (kind.choice? levels).bind OperationKind.ofKeyword?
      let name ← optional? text? name
      let declared ← list? VariableDefinition.ofJson? levels declared
      let selection ← selectionSet? levels selection
      return ⟨kind, name, declared, selection⟩
    | _ => none
  | 0, _ => none

/-- Reads the name of a field of a type. -/
def fieldName? : (levels : Nat) → Json → Option String
  | _ + 1, json =>
    match parts? ["name"] json with
    | some [some name] => name.text?
    | _ => none
  | 0, _ => none

/-- Reads a type definition. -/
def TypeDefinition.ofJson? : (levels : Nat) → Json → Option TypeDefinition
  | levels + 1, json =>
    match parts? ["name", "fields"] json with
    | some [some name, some fields] => do
      let name ← name.text?
      let fields ← list? fieldName? levels fields
      return ⟨name, fields⟩
    | _ => none
  | 0, _ => none

/-- Reads a definition. -/
def Definition.ofJson? : (levels : Nat) → Json → Option Definition
  | levels + 1, .object [(tag, content)] =>
    if tag = "Operation" then (Operation.ofJson? levels content).map .operation
    else if tag = "Type" then (TypeDefinition.ofJson? levels content).map .typeDefinition
    else none
  | _, _ => none

/-- **Reads a document** from a JSON tree, entering at most `levels` nested arrays and objects. -/
def Document.ofJson? : (levels : Nat) → Json → Option Document
  | levels + 1, json =>
    match parts? ["definitions"] json with
    | some [some definitions] => (list? Definition.ofJson? levels definitions).map Document.mk
    | _ => none
  | 0, _ => none

namespace Json

/-- How deep arrays and objects may nest in a JSON text that is read. -/
def maxDepth : Nat := 127

end Json

/-- Reads a document from a JSON text. -/
def Document.ofJsonText? (text : String) : Option Document :=
  (Json.parse? text).bind (Document.ofJson? Json.maxDepth)

/-- Reads a literal from a JSON text. -/
def Literal.ofJsonText? (text : String) : Option Literal :=
  (Json.parse? text).bind (Literal.ofJson? Json.maxDepth)

end GraphQuery
