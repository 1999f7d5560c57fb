import GraphQuery.Token
import GraphQuery.Diagnostic
import GraphQuery.Document

/-! # Readings

Reading never fails. A `Reading α` is what a reader makes of the head of a token list: a value,
the diagnostics recorded on the way, in order, and the tokens left. Readers are functions from
token lists to readings; past the end of the list they see an end of input.

The vocabulary of diagnostics is here too: what was expected (`Expectation`), and in which
bracketed construct (`Construct`). -/

namespace GraphQuery

/-- **A reading**: a value, the diagnostics recorded, and the tokens left. -/
structure Reading (α : Type) where
  /-- The value made from the tokens read. -/
  value : α
  /-- The diagnostics, in the order recorded. -/
  diagnostics : List Diagnostic
  /-- The tokens left. -/
  rest : List Token

namespace Reading

variable {α β : Type}

/-- Reads on after a reading. -/
def andThen (r : Reading α) (f : α → List Token → Reading β) : Reading β :=
  let s := f r.value r.rest
  ⟨s.value, r.diagnostics ++ s.diagnostics, s.rest⟩

/-- Changes the value of a reading. -/
def map (f : α → β) (r : Reading α) : Reading β := ⟨f r.value, r.diagnostics, r.rest⟩

@[simp] theorem andThen_value (r : Reading α) (f : α → List Token → Reading β) :
    (r.andThen f).value = (f r.value r.rest).value := rfl

@[simp] theorem andThen_diagnostics (r : Reading α) (f : α → List Token → Reading β) :
    (r.andThen f).diagnostics = r.diagnostics ++ (f r.value r.rest).diagnostics := rfl

@[simp] theorem andThen_rest (r : Reading α) (f : α → List Token → Reading β) :
    (r.andThen f).rest = (f r.value r.rest).rest := rfl

@[simp] theorem map_value (f : α → β) (r : Reading α) : (r.map f).value = f r.value := rfl

@[simp] theorem map_diagnostics (f : α → β) (r : Reading α) :
    (r.map f).diagnostics = r.diagnostics := rfl

@[simp] theorem map_rest (f : α → β) (r : Reading α) : (r.map f).rest = r.rest := rfl

end Reading

/-- The next token; past the end of the list it is an end of input. -/
def nextToken (ts : List Token) : Token := ts.head?.getD Token.unplacedEof

/-- The kind of the next token. -/
def nextKind (ts : List Token) : Token.Kind := (nextToken ts).kind

/-- The tokens after the next one; an end of input stays. -/
def dropToken (ts : List Token) : List Token := if nextKind ts = .eof then ts else ts.tail

@[simp] theorem nextToken_nil : nextToken [] = Token.unplacedEof := rfl

@[simp] theorem nextToken_cons (t : Token) (ts : List Token) : nextToken (t :: ts) = t := rfl

@[simp] theorem nextKind_nil : nextKind [] = .eof := rfl

@[simp] theorem nextKind_cons (t : Token) (ts : List Token) : nextKind (t :: ts) = t.kind := rfl

/-- **What a reader expected** where it found something else. -/
inductive Expectation where
  /-- The start of a definition. -/
  | definition
  /-- A name after the keyword of a type definition. -/
  | typeName
  /-- The body of a type. -/
  | typeBody (name : String)
  /-- A field of a type. -/
  | fieldDefinition
  /-- The colon after a field of a type. -/
  | fieldColon (name : String)
  /-- The selection set of an operation. -/
  | selectionSet (kind : OperationKind)
  /-- A declared variable. -/
  | variableDefinition
  /-- A name after a dollar sign. -/
  | variableName
  /-- A type reference. -/
  | type
  /-- A selected field. -/
  | fieldName
  /-- The name of an argument. -/
  | argumentName
  /-- The colon after an argument's name. -/
  | argumentColon
  /-- A literal. -/
  | value
  /-- A key of an object. -/
  | objectKey
  /-- The colon after a key. -/
  | objectColon
  /-- A closing bracket. -/
  | closing (shape : Delimiter)

namespace Expectation

/-- The expectation in words. -/
def phrase : Expectation → String
  | definition => "expected a definition"
  | typeName => "expected type name after `type`"
  | typeBody name => "expected `\x7b` to begin type " ++ quoted name
  | fieldDefinition => "expected field definition"
  | fieldColon name => "expected `:` after field " ++ quoted name
  | selectionSet kind => "expected `\x7b` to begin " ++ kind.keyword ++ " selection set"
  | variableDefinition => "expected variable definition"
  | variableName => "expected variable name after `$`"
  | type => "expected type"
  | fieldName => "expected field name"
  | argumentName => "expected argument name"
  | argumentColon => "expected `:` after argument name"
  | value => "expected value"
  | objectKey => "expected object key"
  | objectColon => "expected colon in object"
  | closing shape => "expected " ++ quoted (String.singleton shape.closeSymbol)

/-- The tokens that would have met the expectation. -/
def alternatives : Expectation → List String
  | definition => ["query", "mutation", "subscription", "type", "\x7b"]
  | typeBody _ | selectionSet _ => ["\x7b"]
  | fieldColon _ | argumentColon | objectColon => [":"]
  | variableDefinition => ["$"]
  | type => ["name", "["]
  | value => ["value"]
  | closing shape => [String.singleton shape.closeSymbol]
  | typeName | fieldDefinition | variableName | fieldName | argumentName | objectKey => ["name"]

end Expectation

/-- **The bracketed constructs** of a document. -/
inductive Construct where
  /-- The arguments that a field of a type takes. -/
  | argumentDefinitions
  /-- The arguments of a selected field. -/
  | fieldArguments
  /-- A list type. -/
  | listType
  /-- A list literal. -/
  | listValue
  /-- An object literal. -/
  | objectValue
  /-- A selection set. -/
  | selectionSet
  /-- The body of a type definition. -/
  | typeDefinition
  /-- The variables of an operation. -/
  | variableDefinitions
deriving DecidableEq

namespace Construct

/-- The construct in words. -/
def describe : Construct → String
  | argumentDefinitions => "argument definitions"
  | fieldArguments => "field arguments"
  | listType => "list type annotation"
  | listValue => "list value"
  | objectValue => "object value"
  | selectionSet => "selection set"
  | typeDefinition => "type definition"
  | variableDefinitions => "variable definitions"

/-- The shape of the construct's brackets. -/
def shape : Construct → Delimiter
  | argumentDefinitions | fieldArguments | variableDefinitions => .paren
  | listType | listValue => .bracket
  | objectValue | selectionSet | typeDefinition => .brace

/-- Brackets at which a construct gives way to what encloses it, though they are not its own. -/
def yieldsTo (construct : Construct) (kind : Token.Kind) : Bool :=
  match construct with
  | fieldArguments => kind = .closing .brace
  | listValue => kind = .closing .paren || kind = .closing .brace
  | variableDefinitions => kind = .opening .brace || kind = .closing .brace
  | _ => false

/-- Whether the items of a construct end before a token. -/
def endsAt (construct : Construct) (kind : Token.Kind) : Bool :=
  kind = .eof || kind = .closing construct.shape || construct.yieldsTo kind

end Construct

namespace Diagnostic

/-- An expectation was met by another token. -/
def unexpected (expectation : Expectation) (found : Token) : Diagnostic where
  message := expectation.phrase ++ ", found " ++ found.kind.describe
  span := found.span
  cause :=
    match found.kind with
    | .eof => .unexpectedEof expectation.alternatives
    | .illegal text => .illegalCharacter text
    | kind => .unexpectedToken expectation.alternatives kind.describe

/-- A construct was still open at the end of input. -/
def unclosed (construct : Construct) (eof : Token) : Diagnostic where
  message := "unclosed " ++ quoted (String.singleton construct.shape.openSymbol) ++ " in "
    ++ construct.describe
  span := eof.span
  cause := .unclosedDelimiter (String.singleton construct.shape.openSymbol)

/-- A construct met a closing bracket of another shape. -/
def mismatched (construct : Construct) (found : Token) : Diagnostic where
  message := "expected " ++ quoted (String.singleton construct.shape.closeSymbol) ++ " to close "
    ++ construct.describe ++ ", found " ++ found.kind.describe
  span := found.span
  cause := .mismatchedDelimiter (String.singleton construct.shape.closeSymbol) found.kind.literal

end Diagnostic

end GraphQuery
