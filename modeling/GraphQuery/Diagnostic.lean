import GraphQuery.Text.Span

/-! # Diagnostics

A diagnostic tells what is wrong with a document and where. Its **cause** is meant for programs,
its message for readers. `Diagnostic.render` shows the message over the line of source text it
points to, with carets under the offending characters.

Lines are counted by line feeds and columns by characters, both from zero here and from one in
the rendering. A displayed line carries neither its line feed nor a carriage return just before
it, and there is no line to display after a final line feed. -/

namespace GraphQuery

/-- **The cause of a diagnostic.** -/
inductive Cause where
  /-- Some token was expected and another one found. -/
  | unexpectedToken (expected : List String) (found : String)
  /-- Some token was expected at the end of input. -/
  | unexpectedEof (expected : List String)
  /-- A bracket was open at the end of input. -/
  | unclosedDelimiter (delimiter : String)
  /-- A bracket was closed by one of another shape. -/
  | mismatchedDelimiter (expected : String) (found : String)
  /-- A character starts no token. -/
  | illegalCharacter (character : String)
  /-- Nesting went too deep, and a part was skipped. -/
  | recursionLimitExceeded
  /-- A construct had too many items, and its remaining input was not read. -/
  | iterationLimitExceeded
deriving DecidableEq

namespace Cause

/-- A cause in words. -/
def describe : Cause → String
  | unexpectedToken _ found => "unexpected token: " ++ found
  | unexpectedEof _ => "unexpected end of input"
  | unclosedDelimiter delimiter => "unclosed delimiter: `" ++ delimiter ++ "`"
  | mismatchedDelimiter _ _ => "mismatched delimiter"
  | illegalCharacter character => "illegal character: `" ++ character ++ "`"
  | recursionLimitExceeded => "recursion limit exceeded"
  | iterationLimitExceeded => "iteration limit exceeded"

end Cause

/-- **A diagnostic**: a message, the place it is about, and its cause. -/
structure Diagnostic where
  /-- The message for readers. -/
  message : String
  /-- The place in the source text. -/
  span : Span
  /-- The cause. -/
  cause : Cause
deriving DecidableEq

/-- **A place in a text**: line and column, both counted from zero. -/
structure Location where
  /-- The number of line feeds before the place. -/
  line : Nat
  /-- The number of characters between the last line feed and the place. -/
  column : Nat
deriving DecidableEq

namespace Location

/-- The location right after a stretch of text that starts at `location`. -/
def advance (location : Location) : List Char → Location
  | [] => location
  | c :: cs =>
    advance (if c = '\n' then ⟨location.line + 1, 0⟩ else ⟨location.line, location.column + 1⟩) cs

/-- The number of line feeds among the characters that start within the first `offset` bytes. -/
def lineAt (offset : Nat) (source : List Char) : Nat :=
  match offset, source with
  | 0, _ => 0
  | _, [] => 0
  | offset + 1, c :: cs => (if c = '\n' then 1 else 0) + lineAt (offset + 1 - c.utf8Size) cs

/-- The location of a byte offset; past the end it is the location of the end, and an offset
inside a character is put at the start of its line. -/
def ofOffset (source : List Char) (offset : Nat) : Location :=
  match splitAtByte? (min offset (byteLength source)) source with
  | some (before, _) => advance ⟨0, 0⟩ before
  | none => ⟨lineAt offset source, 0⟩

end Location

/-- The characters before the first line feed, and the text after it if there is one. -/
def splitLine : List Char → List Char × Option (List Char)
  | [] => ([], none)
  | c :: cs =>
    if c = '\n' then ([], some cs)
    else
      let (line, rest) := splitLine cs
      (c :: line, rest)

/-- A line without a carriage return at its end. -/
def dropReturn (line : List Char) : List Char :=
  if line.getLast? = some '\r' then line.dropLast else line

/-- **Line `n` of a text**, counted from zero, as it is displayed. A text that is empty or ends
with a line feed has no line after that. -/
def displayedLine? : Nat → List Char → Option (List Char)
  | _, [] => none
  | 0, c :: cs =>
    let (line, rest) := splitLine (c :: cs)
    some (if rest.isSome then dropReturn line else line)
  | n + 1, c :: cs =>
    match (splitLine (c :: cs)).2 with
    | some rest => displayedLine? n rest
    | none => none

/-- Pads a text with blanks on the left to a width. -/
def padLeft (width : Nat) (text : String) : String :=
  String.ofList (List.replicate (width - text.length) ' ') ++ text

namespace Diagnostic

/-- The diagnostic on one line, with its byte offsets. -/
def oneLine (d : Diagnostic) : String :=
  toString d.span.start ++ ".." ++ toString d.span.stop ++ ": error: " ++ d.message

/-- The number of carets drawn: one for each character of the span's text before a line feed,
and one if there is no such character or no such text. -/
def caretCount (d : Diagnostic) (source : List Char) : Nat :=
  match d.span.slice? source with
  | some text => max 1 (text.takeWhile (· ≠ '\n')).length
  | none => 1

/-- The place the diagnostic points to. -/
def location (d : Diagnostic) (source : List Char) : Location :=
  Location.ofOffset source d.span.start

/-- The rendering without source text, which gives byte offsets only. -/
def renderUnplaced (d : Diagnostic) : String :=
  "error: " ++ d.message ++ "\n  --> <input>@" ++ toString d.span.start ++ ".."
    ++ toString d.span.stop ++ "\n"

/-- **The rendering of a diagnostic**: message, place, and the source line with carets. -/
def render (d : Diagnostic) (source : List Char) : String :=
  let place := d.location source
  let heading := "error: " ++ d.message ++ "\n  --> <input>:" ++ toString (place.line + 1) ++ ":"
    ++ toString (place.column + 1) ++ "\n"
  match displayedLine? place.line source with
  | none => heading
  | some line =>
    let number := toString (place.line + 1)
    let width := max 2 number.length
    heading ++ padLeft width "" ++ " |\n"
      ++ padLeft width number ++ " | " ++ String.ofList line ++ "\n"
      ++ padLeft width "" ++ " | " ++ padLeft place.column ""
      ++ String.ofList (List.replicate (d.caretCount source) '^') ++ "\n"

/-- The renderings of many diagnostics, separated by empty lines. -/
def renderAll (source : List Char) (ds : List Diagnostic) : String :=
  String.intercalate "\n" (ds.map fun d => d.render source)

/-- The renderings of many diagnostics without source text. -/
def renderAllUnplaced (ds : List Diagnostic) : String :=
  String.intercalate "\n" (ds.map renderUnplaced)

end Diagnostic

end GraphQuery
