import GraphQuery.Overflow
import GraphQuery.Token

/-! # A cursor with lookahead

`Cursor` hands out the tokens of a list one by one and lets its reader look ahead without
consuming. Tokens that were looked at wait in a buffer; tokens not yet needed stay in the list.
Past the end of the list the cursor keeps answering with the last end-of-input token it has
seen, or with one at offset zero if there was none. -/

namespace GraphQuery.Token

/-- **A cursor** over a list of tokens. -/
structure Cursor where
  /-- The tokens looked at and not consumed, the next one first. -/
  buffer : List Token
  /-- The tokens not looked at yet. -/
  source : List Token
  /-- The answer past the end. -/
  eof : Token

namespace Cursor

/-- A cursor at the start of a list. -/
def ofTokens (tokens : List Token) : Cursor := ⟨[], tokens, unplacedEof⟩

/-- Moves up to `count` tokens from a list to the end of the buffer, noting each end of input. -/
def pull : Nat → List Token → List Token → Token → Cursor
  | 0, buffer, source, eof => ⟨buffer, source, eof⟩
  | _ + 1, buffer, [], eof => ⟨buffer, [], eof⟩
  | count + 1, buffer, token :: source, eof =>
    pull count (buffer ++ [token]) source (if token.isEof then token else eof)

/-- Fills the buffer to `count` tokens, or to as many as there are. -/
def fill (cursor : Cursor) (count : Nat) : Cursor :=
  pull (count - cursor.buffer.length) cursor.buffer cursor.source cursor.eof

/-- The token `n` places ahead, with the buffer filled to `count` tokens. -/
def look (cursor : Cursor) (count n : Nat) : Token × Cursor :=
  let filled := cursor.fill count
  (filled.buffer[n]?.getD filled.eof, filled)

/-- **The token `n` places ahead.** To get there one token more is needed in the buffer, and there
is no answer if that many cannot be counted and this is noticed. -/
def peekNth? (overflow : Overflow) (cursor : Cursor) (n : UInt64) : Option (Token × Cursor) :=
  (overflow.succ? n).map fun count => cursor.look count.toNat n.toNat

/-- The next token. -/
def peek (cursor : Cursor) : Token × Cursor := cursor.look 1 0

/-- The next token is the one no places ahead, however additions are carried out. -/
theorem peekNth?_zero (overflow : Overflow) (cursor : Cursor) :
    cursor.peekNth? overflow 0 = some cursor.peek := by
  cases overflow <;> rfl

/-- Takes the next token; past the end there is nothing to take and the answer stays. -/
def consume (cursor : Cursor) : Token × Cursor :=
  let filled := cursor.fill 1
  match filled.buffer with
  | [] => (filled.eof, filled)
  | token :: rest => (token, { filled with buffer := rest })

/-- Whether the next token is an end of input. -/
def isAtEnd (cursor : Cursor) : Bool × Cursor :=
  let (token, filled) := cursor.peek
  (token.isEof, filled)

end Cursor

end GraphQuery.Token
