import GraphQuery.Text.Span

/-! # Tokens

A document is read as a list of tokens. A token is its **kind**, with the text that the kind
carries, and the span it was read from. Brackets come in three shapes; an opening and a closing
bracket match when their shapes agree. -/

namespace GraphQuery

/-- Puts a text between backticks, as diagnostics quote source text. -/
def quoted (text : String) : String := "`" ++ text ++ "`"

/-- **The shapes of brackets.** -/
inductive Delimiter where
  /-- Round brackets. -/
  | paren
  /-- Square brackets. -/
  | bracket
  /-- Curly brackets. -/
  | brace
deriving DecidableEq

namespace Delimiter

/-- The character that opens a group. -/
def openSymbol : Delimiter → Char
  | paren => '('
  | bracket => '['
  | brace => '{'

/-- The character that closes a group. -/
def closeSymbol : Delimiter → Char
  | paren => ')'
  | bracket => ']'
  | brace => '}'

end Delimiter

namespace Token

/-- **The kinds of tokens.** Keywords, booleans and enum values are all names. -/
inductive Kind where
  /-- An exclamation mark. -/
  | bang
  /-- A colon. -/
  | colon
  /-- A comma. -/
  | comma
  /-- A dollar sign. -/
  | dollar
  /-- An equals sign. -/
  | equals
  /-- A semicolon. -/
  | semicolon
  /-- An opening bracket. -/
  | opening (shape : Delimiter)
  /-- A closing bracket. -/
  | closing (shape : Delimiter)
  /-- An identifier. -/
  | name (text : String)
  /-- A run of decimal digits. -/
  | int (digits : String)
  /-- The contents of a string, without its quotes. -/
  | string (contents : String)
  /-- A character that starts no other token. -/
  | illegal (text : String)
  /-- The end of input. -/
  | eof
deriving DecidableEq

namespace Kind

/-- The one-character spelling of a punctuator. -/
def symbol? : Kind → Option Char
  | bang => some '!'
  | colon => some ':'
  | comma => some ','
  | dollar => some '$'
  | equals => some '='
  | semicolon => some ';'
  | opening shape => some shape.openSymbol
  | closing shape => some shape.closeSymbol
  | name _ | int _ | string _ | illegal _ | eof => none

/-- The punctuator that a character spells. -/
def ofSymbol? (c : Char) : Option Kind :=
  match c with
  | '!' => some bang
  | ':' => some colon
  | ',' => some comma
  | '$' => some dollar
  | '=' => some equals
  | ';' => some semicolon
  | '(' => some (opening .paren)
  | '[' => some (opening .bracket)
  | '{' => some (opening .brace)
  | ')' => some (closing .paren)
  | ']' => some (closing .bracket)
  | '}' => some (closing .brace)
  | _ => none

/-- Reading a punctuator's spelling gives the punctuator. -/
theorem ofSymbol?_symbol? {kind : Kind} {c : Char} (h : kind.symbol? = some c) :
    ofSymbol? c = some kind := by
  cases kind with
  | opening shape => cases shape <;> simp_all [symbol?, Delimiter.openSymbol] <;> subst h <;> rfl
  | closing shape => cases shape <;> simp_all [symbol?, Delimiter.closeSymbol] <;> subst h <;> rfl
  | _ => simp_all [symbol?] <;> subst h <;> rfl

/-- Whether the kind is a punctuator. -/
def isPunctuator (kind : Kind) : Bool := kind.symbol?.isSome

/-- Whether the kind closes a bracketed group. -/
def isClosing : Kind → Bool
  | closing _ => true
  | _ => false

/-- Whether the kind is the name with exactly this text. -/
def isName (kind : Kind) (text : String) : Bool := kind = name text

/-- The text of a token: what it carries, or its symbol; nothing at the end of input. -/
def literal : Kind → String
  | name text | int text | string text | illegal text => text
  | eof => ""
  | kind => (kind.symbol?.map String.singleton).getD ""

/-- How diagnostics name a token. -/
def describe : Kind → String
  | name text => "name " ++ quoted text
  | int digits => "integer " ++ quoted digits
  | string contents => "string \"" ++ contents ++ "\""
  | illegal text => "illegal character " ++ quoted text
  | eof => "end of input"
  | kind => quoted kind.literal

end Kind

end Token

/-- **A token**: its kind and the place it was read from. -/
structure Token where
  /-- What was read. -/
  kind : Token.Kind
  /-- Where it was read. -/
  span : Span
deriving DecidableEq

namespace Token

/-- Whether the token marks the end of input. -/
def isEof (token : Token) : Bool := token.kind = .eof

/-- The end of a token list that does not say where it ends. -/
def unplacedEof : Token := ⟨.eof, ⟨0, 0⟩⟩

end Token

end GraphQuery
