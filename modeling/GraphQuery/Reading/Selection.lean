import GraphQuery.Reading.Literal

/-! # Reading selections

A selection set holds fields in curly brackets; a field is a name, arguments in round brackets if
there are any, and a nested selection set if there is one. -/

namespace GraphQuery.Reading

variable [Rounds]

/-- Reads one argument: a name, a colon and a value. -/
def argument (value : List Token → Reading Literal) (ts : List Token) :
    Reading (Item Argument) :=
  match nextKind ts with
  | .name name =>
    if nextKind ts.tail = .colon then
      (value ts.tail.tail).map fun value => .kept ⟨name, value⟩
    else unexpected .argumentColon (.kept ⟨name, .illegal Expectation.argumentColon.phrase⟩) ts.tail
  | _ => skipUnexpected .argumentName .skipped ts

/-- Reads the arguments of a field, if an opening bracket is next. -/
def arguments (value : List Token → Reading Literal) (ts : List Token) :
    Reading (List Argument) :=
  if nextKind ts = .opening .paren then
    (items .fieldArguments (argument value) (rounds ts.tail) ts.tail).map Items.kept
  else ⟨[], [], ts⟩

/-- Reads the nested selection set of a field, if an opening bracket is next. -/
def nested (selection : List Token → Reading SelectionSet) (ts : List Token) :
    Reading (Option SelectionSet) :=
  if nextKind ts = .opening .brace then (selection ts).map some else ⟨none, [], ts⟩

/-- Reads one field. -/
def field (value : List Token → Reading Literal) (selection : List Token → Reading SelectionSet)
    (ts : List Token) : Reading (Item Field) :=
  match nextKind ts with
  | .name name =>
    (arguments value ts.tail).andThen fun arguments ts =>
      (nested selection ts).map fun selection => .kept ⟨name, arguments, selection⟩
  | _ => skipUnexpected .fieldName .skipped ts

/-- **Reads a selection set** that may nest `levels` deep and whose opening bracket is next. -/
def selectionSet : (levels : Nat) → List Token → Reading SelectionSet
  | 0, ts => tooDeep [] ts
  | levels + 1, ts =>
    (items .selectionSet (field (literal levels) (selectionSet levels)) (rounds ts.tail)
      ts.tail).map Items.kept

end GraphQuery.Reading
