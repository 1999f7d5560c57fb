import GraphQuery.Token.Lexer
import GraphQuery.Reading.Definition

/-! # Parsing

Parsing always gives a document. It comes with the diagnostics that were recorded, and is
**valid** when there are none; a caller may use it either way. -/

namespace GraphQuery

/-- **A parsed document** with the diagnostics on it. -/
structure Parsed where
  /-- The document, as far as it could be made out. -/
  document : Document
  /-- What is wrong with the input, in the order it was met. -/
  diagnostics : List Diagnostic

namespace Parsed

/-- Parses a list of tokens. -/
def ofTokens (tokens : List Token) : Parsed :=
  let reading := Reading.document tokens
  ⟨reading.value, reading.diagnostics⟩

/-- **Parses a source text.** -/
def ofText (source : String) : Parsed := ofTokens (Token.ofText source)

/-- Whether anything is wrong with the input. -/
def hasErrors (parsed : Parsed) : Bool := !parsed.diagnostics.isEmpty

/-- The document, if nothing is wrong with it. -/
def valid? (parsed : Parsed) : Option Document :=
  if parsed.hasErrors then none else some parsed.document

/-- The document if nothing is wrong with it, and the diagnostics otherwise. -/
def toExcept (parsed : Parsed) : Except (List Diagnostic) Document :=
  if parsed.hasErrors then .error parsed.diagnostics else .ok parsed.document

end Parsed

end GraphQuery
