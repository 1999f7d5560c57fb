import GraphQuery.Document

/-! # The size of a selection

How many fields, arguments and literals a selection set holds, counting all nested ones, and how
deep its selection sets nest. A list or an object literal counts as one literal more than what it
holds. A selection set is one level deeper than the deepest set nested in it. -/

namespace GraphQuery

namespace Literal

mutual

/-- The number of literals in a literal, itself included. -/
def count : Literal → Nat
  | array items => 1 + countItems items
  | object fields => 1 + countFields fields
  | boolean _ | enum _ | illegal _ | int _ | string _ | variableRef _ => 1

/-- The number of literals in the items of a list. -/
def countItems : List Literal → Nat
  | [] => 0
  | item :: rest => count item + countItems rest

/-- The number of literals in the fields of an object. -/
def countFields : List (String × Literal) → Nat
  | [] => 0
  | (_, value) :: rest => count value + countFields rest

end

end Literal

/-- **The size of a selection set.** -/
structure Size where
  /-- The number of fields. -/
  fields : Nat
  /-- The number of arguments. -/
  arguments : Nat
  /-- The number of literals. -/
  literals : Nat
  /-- The number of levels of selection sets. -/
  depth : Nat

namespace Size

/-- The size of nothing. -/
def zero : Size := ⟨0, 0, 0, 0⟩

/-- The size of two parts side by side. -/
def beside (a b : Size) : Size :=
  ⟨a.fields + b.fields, a.arguments + b.arguments, a.literals + b.literals, max a.depth b.depth⟩

/-- The size of a set whose fields have this size. -/
def deeper (a : Size) : Size := { a with depth := a.depth + 1 }

/-- The size that a field adds to that of its nested selection. -/
def withField (arguments : List Argument) (nested : Size) : Size :=
  { nested with
    fields := nested.fields + 1
    arguments := nested.arguments + arguments.length
    literals := nested.literals
      + (arguments.map fun argument => argument.value.count).foldl (· + ·) 0 }

mutual

/-- The size of one field. -/
def ofField : Field → Size
  | ⟨_, arguments, selection⟩ => withField arguments (ofNested selection)

/-- The size of a nested selection, if there is one. -/
def ofNested : Option (List Field) → Size
  | none => zero
  | some fields => deeper (ofFields fields)

/-- The size of fields side by side. -/
def ofFields : List Field → Size
  | [] => zero
  | field :: rest => beside (ofField field) (ofFields rest)

end

/-- The size of a selection set. -/
def ofSelection (selection : SelectionSet) : Size := deeper (ofFields selection)

end Size

end GraphQuery
