import GraphQuery.Reading.Recovery

/-! # Reading type references

A type is a name or a list of a type in square brackets, and an exclamation mark after it says
that it is never null. -/

namespace GraphQuery.Reading

variable [Rounds]

/-- Reads the mark that a position is never null, if it is there. -/
def nullability (ts : List Token) : Reading Nullability :=
  if nextKind ts = .bang then ⟨.nonNull, [], ts.tail⟩ else ⟨.nullable, [], ts⟩

/-- **Reads a type reference** that may nest `levels` deep. -/
def typeReference : (levels : Nat) → List Token → Reading (Option TypeReference)
  | 0, ts => tooDeep none ts
  | levels + 1, ts =>
    match nextKind ts with
    | .opening .bracket =>
      (typeReference levels ts.tail).andThen fun element ts =>
        (close .listType ts).andThen fun _ ts =>
          (nullability ts).map fun mark => some (.list element mark)
    | .name name => (nullability ts.tail).map fun mark => some (.named name mark)
    | _ => unexpected .type none ts

end GraphQuery.Reading
