import GraphQuery.Entries

/-! # Documents

A document is a list of definitions. An **operation** selects fields of the data, each field with
literal arguments and, where it has parts, a nested selection; a **type definition** names a type
and its fields. Malformed input leaves its trace in the tree: an `illegal` literal, a variable
without a name, a list type without an element. -/

namespace GraphQuery

/-- **The kinds of operations**, named by their keyword. -/
inductive OperationKind where
  /-- Reads data. -/
  | query
  /-- Changes data. -/
  | mutation
  /-- Follows events. -/
  | subscription
deriving DecidableEq

namespace OperationKind

/-- Every kind of operation. -/
def all : List OperationKind := [query, mutation, subscription]

/-- The keyword that starts an operation. -/
def keyword : OperationKind → String
  | query => "query"
  | mutation => "mutation"
  | subscription => "subscription"

/-- The kind that a keyword starts; keywords are case-sensitive. -/
def ofKeyword? (text : String) : Option OperationKind :=
  all.find? fun kind => kind.keyword = text

/-- A keyword is read back as its kind. -/
@[simp] theorem ofKeyword?_keyword (kind : OperationKind) :
    ofKeyword? kind.keyword = some kind := by
  cases kind <;> decide

end OperationKind

/-- Whether a position may hold null. -/
inductive Nullability where
  /-- Never null; written with a trailing exclamation mark. -/
  | nonNull
  /-- Possibly null. -/
  | nullable
deriving DecidableEq

/-- **A type reference**: a named type, or a list whose element type may be missing. -/
inductive TypeReference where
  /-- A type by its name. -/
  | named (name : String) (nullability : Nullability)
  /-- A list of an element type. -/
  | list (element : Option TypeReference) (nullability : Nullability)

namespace TypeReference

/-- The name at this level; a list has none. -/
def name? : TypeReference → Option String
  | named name _ => some name
  | list _ _ => none

/-- The name inside all lists, if the innermost list has an element type. -/
def innermostName? : TypeReference → Option String
  | named name _ => some name
  | list (some element) _ => element.innermostName?
  | list none _ => none

/-- Whether the reference is a list. -/
def isList : TypeReference → Bool
  | named _ _ => false
  | list _ _ => true

/-- Whether the position may hold null. -/
def nullability : TypeReference → Nullability
  | named _ nullability => nullability
  | list _ nullability => nullability

/-- The element type of a list. -/
def element? : TypeReference → Option TypeReference
  | named _ _ => none
  | list element _ => element

/-- The mark that a position which is never null carries. -/
def mark : Nullability → String
  | .nonNull => "!"
  | .nullable => ""

/-- A type reference as it is written in a document. -/
def text : TypeReference → String
  | named name nullability => name ++ mark nullability
  | list (some element) nullability => "[" ++ element.text ++ "]" ++ mark nullability
  | list none nullability => "[]" ++ mark nullability

end TypeReference

/-- **A literal** as it is written in a document. Scalars keep their text. -/
inductive Literal where
  /-- A list of literals. -/
  | array (items : List Literal)
  /-- A truth value. -/
  | boolean (value : Bool)
  /-- Any other bare name. -/
  | enum (name : String)
  /-- What is left of a malformed value: the offending text or a remark on what is missing. -/
  | illegal (text : String)
  /-- The digits of an integer, of any length. -/
  | int (digits : String)
  /-- An object; a repeated key keeps its first position and its last value. -/
  | object (fields : List (String × Literal))
  /-- The contents of a string. -/
  | string (contents : String)
  /-- A variable by its name, which is empty where the name is missing. -/
  | variableRef (name : String)

/-- **An argument** of a field. -/
structure Argument where
  /-- The argument's name. -/
  name : String
  /-- The literal given for it. -/
  value : Literal

/-- **A selected field**, with its arguments and, if it has one, its nested selection. -/
structure Field where
  /-- The field's name. -/
  name : String
  /-- Its arguments, in the order written. -/
  arguments : List Argument
  /-- The fields selected from its value. -/
  selection : Option (List Field)

/-- **A selection set**: the fields selected from a value, in the order written. -/
abbrev SelectionSet := List Field

/-- The first argument of a given name. -/
def Field.argument? (field : Field) (name : String) : Option Argument :=
  field.arguments.find? fun argument => argument.name = name

/-- **A variable** that an operation declares. -/
structure VariableDefinition where
  /-- The variable's name. -/
  name : String
  /-- Its type, if one is written. -/
  type : Option TypeReference

/-- **An operation.** -/
structure Operation where
  /-- What the operation does. -/
  kind : OperationKind
  /-- Its name, if it has one. -/
  name : Option String
  /-- The variables it declares. -/
  declared : List VariableDefinition
  /-- What it selects. -/
  selection : SelectionSet

/-- **A type definition**, which keeps the names of the type's fields. -/
structure TypeDefinition where
  /-- The type's name. -/
  name : String
  /-- The names of its fields. -/
  fields : List String

/-- **A definition** of a document. -/
inductive Definition where
  /-- An operation. -/
  | operation (operation : Operation)
  /-- A type definition. -/
  | typeDefinition (definition : TypeDefinition)

/-- **A document**: its definitions, in the order written. -/
structure Document where
  /-- The definitions. -/
  definitions : List Definition

namespace Document

/-- The operations of a document. -/
def operations (document : Document) : List Operation :=
  document.definitions.filterMap fun
    | .operation operation => some operation
    | .typeDefinition _ => none

/-- The type definitions of a document. -/
def typeDefinitions (document : Document) : List TypeDefinition :=
  document.definitions.filterMap fun
    | .operation _ => none
    | .typeDefinition definition => some definition

end Document

end GraphQuery
