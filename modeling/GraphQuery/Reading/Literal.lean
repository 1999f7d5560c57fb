import GraphQuery.Reading.Recovery

/-! # Reading literals

A literal is an integer, a string, a name (`true` and `false` are booleans, all others enum
values), a variable, a list, or an object. A closing bracket or the end of input where a literal
is expected is left in place; any other token that starts no literal is passed, and its text is
kept as an illegal literal. An object that lacks a key or a colon is skipped as a whole. -/

namespace GraphQuery.Reading

variable [Rounds]

/-- The literal that a bare name stands for. -/
def literalOfName (name : String) : Literal :=
  if name = "true" then .boolean true
  else if name = "false" then .boolean false
  else .enum name

/-- Passes the rest of an object whose opening bracket has been passed. -/
def spoilObject (expectation : Expectation) (ts : List Token) :
    Reading (Item (String × Literal)) :=
  (unexpected expectation () ts).andThen fun _ ts =>
    (skipGroup .objectValue (rounds ts) 1 ts).map fun _ => .spoilt expectation.phrase

/-- Reads a key, a colon and a value. -/
def objectField (value : List Token → Reading Literal) (ts : List Token) :
    Reading (Item (String × Literal)) :=
  match nextKind ts with
  | .name key =>
    if nextKind ts.tail = .colon then
      (value ts.tail.tail).map fun value => .kept (key, value)
    else spoilObject .objectColon ts.tail
  | _ => spoilObject .objectKey ts

/-- The object made of its fields; a spoilt one keeps only the remark. -/
def objectLiteral (fields : Items (String × Literal)) : Literal :=
  match fields.remark with
  | some remark => .illegal remark
  | none => .object (Entries.ofPairs fields.kept)

/-- Reads the name of a variable after its dollar sign. -/
def variableName (ts : List Token) : Reading (Option String) :=
  match nextKind ts with
  | .name name => ⟨some name, [], ts.tail⟩
  | _ => unexpected .variableName none ts

/-- **Reads a literal** that may nest `levels` deep. -/
def literal : (levels : Nat) → List Token → Reading Literal
  | 0, ts => tooDeep (.illegal "maximum nesting depth exceeded") ts
  | levels + 1, ts =>
    match nextKind ts with
    | .opening .brace =>
      (items .objectValue (objectField (literal levels)) (rounds ts.tail) ts.tail).map
        objectLiteral
    | .opening .bracket =>
      (items .listValue (fun ts => (literal levels ts).map .kept) (rounds ts.tail) ts.tail).map
        fun values => .array values.kept
    | .int digits => ⟨.int digits, [], ts.tail⟩
    | .string contents => ⟨.string contents, [], ts.tail⟩
    | .name name => ⟨literalOfName name, [], ts.tail⟩
    | .dollar => (variableName ts.tail).map fun name => .variableRef (name.getD "")
    | .closing _ | .eof => unexpected .value (.illegal "expected value") ts
    | kind => skipUnexpected .value (.illegal kind.literal) ts

end GraphQuery.Reading
