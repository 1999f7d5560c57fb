import GraphQuery.Reading.TypeReference
import GraphQuery.Reading.Selection

/-! # Reading definitions

An operation starts with its keyword, or with its selection set if it is an anonymous query. A
type definition starts with the keyword `type`; the arguments and types of its fields are read
and forgotten. -/

namespace GraphQuery.Reading

variable [Rounds]

/-- Reads one declared variable: a dollar sign, a name and, after a colon, a type. -/
def variableDefinition (ts : List Token) : Reading (Item VariableDefinition) :=
  match nextKind ts with
  | .dollar =>
    (variableName ts.tail).andThen fun
      | none, ts => ⟨.skipped, [], ts⟩
      | some name, ts =>
        if nextKind ts = .colon then
          (typeReference maxNesting ts.tail).map fun type => .kept ⟨name, type⟩
        else ⟨.kept ⟨name, none⟩, [], ts⟩
  | _ => skipUnexpected .variableDefinition .skipped ts

/-- Reads the variables of an operation, if an opening bracket is next. -/
def variableDefinitions (ts : List Token) : Reading (List VariableDefinition) :=
  if nextKind ts = .opening .paren then
    (items .variableDefinitions variableDefinition (rounds ts.tail) ts.tail).map Items.kept
  else ⟨[], [], ts⟩

/-- Reads the selection set that an operation must have. -/
def rootSelection (kind : OperationKind) (ts : List Token) : Reading SelectionSet :=
  if nextKind ts = .opening .brace then selectionSet maxNesting ts
  else unexpected (.selectionSet kind) [] ts

/-- Reads a name, if one is next. -/
def name? (ts : List Token) : Reading (Option String) :=
  match nextKind ts with
  | .name name => ⟨some name, [], ts.tail⟩
  | _ => ⟨none, [], ts⟩

/-- Reads an operation after its keyword. -/
def operation (kind : OperationKind) (ts : List Token) : Reading Operation :=
  (name? ts).andThen fun name ts =>
    (variableDefinitions ts).andThen fun declared ts =>
      (rootSelection kind ts).map fun selection => ⟨kind, name, declared, selection⟩

/-- Passes the arguments that a field of a type takes, if an opening bracket is next. -/
def argumentDefinitions (ts : List Token) : Reading Unit :=
  if nextKind ts = .opening .paren then skipGroup .argumentDefinitions (rounds ts) 0 ts
  else ⟨(), [], ts⟩

/-- Reads one field of a type, of which only the name is kept. -/
def fieldDefinition (ts : List Token) : Reading (Item String) :=
  match nextKind ts with
  | .name name =>
    (argumentDefinitions ts.tail).andThen fun _ ts =>
      if nextKind ts = .colon then
        (typeReference maxNesting ts.tail).map fun _ => .kept name
      else unexpected (.fieldColon name) (.kept name) ts
  | _ => skipUnexpected .fieldDefinition .skipped ts

/-- Reads a type definition after its keyword. Without a name there is none, and a body that
follows is skipped. -/
def typeDefinition (ts : List Token) : Reading (Option TypeDefinition) :=
  match nextKind ts with
  | .name name =>
    if nextKind ts.tail = .opening .brace then
      (items .typeDefinition fieldDefinition (rounds ts.tail.tail) ts.tail.tail).map fun fields =>
        some ⟨name, fields.kept⟩
    else unexpected (.typeBody name) (some ⟨name, []⟩) ts.tail
  | _ =>
    (unexpected .typeName () ts).andThen fun _ ts =>
      if nextKind ts = .opening .brace then
        (skipGroup .typeDefinition (rounds ts) 0 ts).map fun _ => none
      else ⟨none, [], ts⟩

/-- **Reads one definition**; a token that starts none is passed. -/
def definition (ts : List Token) : Reading (Option Definition) :=
  match nextKind ts with
  | .opening .brace =>
    (rootSelection .query ts).map fun selection =>
      some (.operation ⟨.query, none, [], selection⟩)
  | .name keyword =>
    match OperationKind.ofKeyword? keyword with
    | some kind => (operation kind ts.tail).map fun operation => some (.operation operation)
    | none =>
      if keyword = "type" then
        (typeDefinition ts.tail).map fun definition => definition.map .typeDefinition
      else skipUnexpected .definition none ts
  | _ => skipUnexpected .definition none ts

/-- Reads definitions up to the end of input. -/
def definitions : (budget : Nat) → List Token → Reading (List Definition)
  | 0, ts =>
    if nextKind ts = .eof then ⟨[], [], ts⟩
    else ⟨[], [.tooManyItems "document" (nextToken ts)], ts⟩
  | budget + 1, ts =>
    if nextKind ts = .eof then ⟨[], [], ts⟩
    else
      (definition ts).andThen fun first ts =>
        (definitions budget ts).map fun more => first.toList ++ more

/-- **Reads a document.** -/
def document (ts : List Token) : Reading Document :=
  (definitions (rounds ts) ts).map Document.mk

end GraphQuery.Reading
