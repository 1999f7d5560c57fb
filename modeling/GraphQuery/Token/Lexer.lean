import GraphQuery.Token

/-! # Reading tokens from text

`Token.ofText` reads source text as tokens. Blanks (space, tab, carriage return, line feed)
separate tokens and are skipped. A name is a letter or underscore and then the longest run of
letters, digits and underscores; an integer is the longest run of digits; a string runs from a
quote to the next quote, with no escapes, or to the end of the text; a punctuator is one
character; and any other character is an illegal token of its own. Letters and digits are the
ASCII ones. -/

namespace GraphQuery.Token

/-- Blanks separate tokens. -/
def isBlank (c : Char) : Bool := c = ' ' || c = '\t' || c = '\r' || c = '\n'

/-- The characters that start a name. -/
def isNameStart (c : Char) : Bool := c.isAlpha || c = '_'

/-- The characters that go on with a name. -/
def isNameContinue (c : Char) : Bool := c.isAlphanum || c = '_'

/-- Whether a character ends a string. -/
def isNotQuote (c : Char) : Bool := c ≠ '"'

/-- **A lexeme**: the kind read at the head of a text, the characters it covers, and the rest. -/
structure Lexeme where
  /-- The kind that was read. -/
  kind : Kind
  /-- The characters covered. -/
  text : List Char
  /-- The text after them. -/
  rest : List Char

namespace Lexeme

/-- The longest run of characters in a class, after a first one. -/
def run (toKind : String → Kind) (inClass : Char → Bool) (c : Char) (cs : List Char) : Lexeme :=
  let text := c :: cs.takeWhile inClass
  ⟨toKind (String.ofList text), text, cs.dropWhile inClass⟩

/-- The string that an opening quote starts, given the text after the quote. -/
def quote (cs : List Char) : Lexeme :=
  let contents := cs.takeWhile isNotQuote
  match cs.dropWhile isNotQuote with
  | [] => ⟨.string (String.ofList contents), '"' :: contents, []⟩
  | close :: rest => ⟨.string (String.ofList contents), '"' :: contents ++ [close], rest⟩

/-- The lexeme at the head of a text that does not start with a blank. -/
def read (c : Char) (cs : List Char) : Lexeme :=
  match Kind.ofSymbol? c with
  | some kind => ⟨kind, [c], cs⟩
  | none =>
    if c = '"' then quote cs
    else if isNameStart c then run .name isNameContinue c cs
    else if c.isDigit then run .int Char.isDigit c cs
    else ⟨.illegal (String.singleton c), [c], cs⟩

/-- A lexeme and the rest make up the text. -/
theorem text_append_rest (c : Char) (cs : List Char) :
    (read c cs).text ++ (read c cs).rest = c :: cs := by
  unfold read
  split
  · rfl
  · split
    · next h =>
      unfold quote
      have hsplit := List.takeWhile_append_dropWhile (p := isNotQuote) (l := cs)
      cases hd : cs.dropWhile isNotQuote with
      | nil => rw [hd] at hsplit; simp_all
      | cons d rest => rw [hd] at hsplit; simp_all
    · split
      · simp [run, List.takeWhile_append_dropWhile]
      · split
        · simp [run, List.takeWhile_append_dropWhile]
        · rfl

/-- A lexeme covers at least one character. -/
theorem text_ne_nil (c : Char) (cs : List Char) : (read c cs).text ≠ [] := by
  unfold read quote run
  repeat' split
  all_goals simp

/-- What follows a lexeme is no longer than what followed its first character. -/
theorem length_rest_le (c : Char) (cs : List Char) : (read c cs).rest.length ≤ cs.length := by
  have h := congrArg List.length (text_append_rest c cs)
  have hpos := List.length_pos_iff.2 (text_ne_nil c cs)
  simp only [List.length_append, List.length_cons] at h
  omega

end Lexeme

/-- The tokens of a text that starts at a byte offset; an end-of-input token closes the list. -/
def lexFrom (offset : Nat) (cs : List Char) : List Token :=
  match cs with
  | [] => [⟨.eof, .ofOffsets offset offset⟩]
  | c :: cs =>
    if isBlank c then lexFrom (offset + 1) cs
    else
      let lexeme := Lexeme.read c cs
      let stop := offset + byteLength lexeme.text
      ⟨lexeme.kind, .ofOffsets offset stop⟩ :: lexFrom stop lexeme.rest
termination_by cs.length
decreasing_by
  · simp
  · exact Nat.lt_succ_of_le (Lexeme.length_rest_le c cs)

/-- **The tokens of a source text.** -/
def ofText (source : String) : List Token := lexFrom 0 source.toList

end GraphQuery.Token
