import GraphQuery.Diagnostic
import GraphQuery.Proofs.Spelling
import Mathlib.Data.List.DropRight

/-! # Rendered diagnostics

A diagnostic that points to a token is rendered with the line and the column at which the token
starts, and over carets that start below it (`Diagnostic.render_pointsAt`). Three ways to count
have to agree for that: a span counts bytes, a column counts characters, and a displayed line is
found by counting line feeds, without the line end.

Text is cut at the token. What is above it are full lines, then comes a stretch of the line that the
token is on. The displayed line is that stretch and what is left of the line from the token on
(`displayedLine?_append`), where only a carriage return in front of the line feed is left out. -/

namespace GraphQuery

/-! ## Lines -/

/-- **Full lines**: a text that is empty or ends with a line feed. -/
def FullLines (text : List Char) : Prop := ∀ c ∈ text.getLast?, c = '\n'

theorem fullLines_iff {text : List Char} :
    FullLines text ↔ text = [] ∨ text.getLast? = some '\n' := by
  cases hlast : text.getLast? with
  | none => simp [FullLines, List.getLast?_eq_none_iff.1 hlast]
  | some c =>
    have hne : text ≠ [] := by
      rintro rfl
      cases hlast
    simp [FullLines, hlast, hne]

/-- Full lines that are not empty have a first line. -/
theorem FullLines.exists_first {text : List Char} (h : FullLines text) (hne : text ≠ []) :
    ∃ first rest, text = first ++ '\n' :: rest ∧ '\n' ∉ first ∧ FullLines rest := by
  have hlast : '\n' ∈ text := by
    have hfeed := h (text.getLast hne) (List.getLast?_eq_some_getLast hne)
    exact hfeed ▸ List.getLast_mem hne
  obtain ⟨first, rest, rfl, hfirst⟩ := List.eq_append_cons_of_mem hlast
  refine ⟨first, rest, rfl, hfirst, fun c hc => h c ?_⟩
  rw [List.getLast?_append, List.getLast?_cons, Option.mem_def.1 hc]
  rfl

/-- **Every text is full lines and a stretch of one more line.** -/
theorem exists_fullLines (text : List Char) :
    ∃ above stretch, text = above ++ stretch ∧ FullLines above ∧ '\n' ∉ stretch := by
  refine ⟨text.rdropWhile (· ≠ '\n'), text.rtakeWhile (· ≠ '\n'),
    List.rdropWhile_append_rtakeWhile.symm, ?_, ?_⟩
  · intro c hc
    obtain ⟨hne, rfl⟩ := List.mem_getLast?_eq_getLast hc
    simpa using List.rdropWhile_last_not _ _ hne
  · intro hmem
    simpa using List.mem_rtakeWhile_imp hmem

/-- A stretch of a line after full lines makes them full lines only if it is empty. -/
theorem FullLines.append_iff {above stretch : List Char} (h : FullLines above)
    (hstretch : '\n' ∉ stretch) : FullLines (above ++ stretch) ↔ stretch = [] := by
  constructor
  · intro hboth
    by_contra hne
    have hlast := hboth (stretch.getLast hne) (by
      rw [List.getLast?_append_of_ne_nil above hne]
      exact List.getLast?_eq_some_getLast hne)
    exact hstretch (hlast ▸ List.getLast_mem hne)
  · rintro rfl
    rwa [List.append_nil]

/-! ## Places -/

namespace Location

/-- A text moves a place on as its parts do, one after the other. -/
theorem advance_append (location : Location) (as bs : List Char) :
    advance location (as ++ bs) = advance (advance location as) bs := by
  induction as generalizing location with
  | nil => rfl
  | cons c cs ih => exact ih _

/-- There are as many more lines as there are line feeds. -/
theorem line_advance (location : Location) (cs : List Char) :
    (advance location cs).line = location.line + cs.count '\n' := by
  induction cs generalizing location with
  | nil => rfl
  | cons c cs ih =>
    rw [advance, ih]
    by_cases hc : c = '\n'
    · subst hc
      rw [if_pos rfl, List.count_cons_self]
      show location.line + 1 + _ = _
      omega
    · rw [if_neg hc, List.count_cons_of_ne hc]

/-- On one line only the column moves on. -/
theorem advance_of_notMem {cs : List Char} (h : '\n' ∉ cs) (location : Location) :
    advance location cs = ⟨location.line, location.column + cs.length⟩ := by
  induction cs generalizing location with
  | nil => rfl
  | cons c cs ih =>
    obtain ⟨hc, hcs⟩ := not_or.1 (mt List.mem_cons.2 h)
    rw [advance, if_neg (Ne.symm hc), ih hcs, List.length_cons]
    show (⟨location.line, location.column + 1 + cs.length⟩ : Location) = _
    rw [Nat.add_assoc, Nat.add_comm 1]

/-- Full lines lead to the start of a line. -/
theorem advance_fullLines {above : List Char} (h : FullLines above) :
    advance ⟨0, 0⟩ above = ⟨above.count '\n', 0⟩ := by
  rcases List.eq_nil_or_concat' above with rfl | ⟨init, last, rfl⟩
  · rfl
  · obtain rfl : last = '\n' := h last (by simp)
    have hline := line_advance ⟨0, 0⟩ init
    rw [Nat.zero_add] at hline
    rw [advance_append, advance, if_pos rfl, advance, hline, List.count_append,
      List.count_singleton_self]

/-- **The location of a byte offset** is where full lines and a stretch of a line lead to. -/
theorem ofOffset_eq {above stretch : List Char} (habove : FullLines above)
    (hstretch : '\n' ∉ stretch) (below : List Char) :
    ofOffset (above ++ (stretch ++ below)) (byteLength (above ++ stretch))
      = ⟨above.count '\n', stretch.length⟩ := by
  have hle : byteLength (above ++ stretch) ≤ byteLength (above ++ stretch ++ below) := by
    rw [byteLength_append (above ++ stretch)]
    exact Nat.le_add_right _ _
  rw [← List.append_assoc, ofOffset, Nat.min_eq_left hle, splitAtByte?_byteLength]
  show advance ⟨0, 0⟩ (above ++ stretch) = _
  rw [advance_append, advance_fullLines habove, advance_of_notMem hstretch, Nat.zero_add]

end Location

/-! ## Displayed lines -/

/-- **What is displayed of a text up to the end of its first line**: neither the line feed nor a
carriage return just before it. -/
def toLineEnd (text : List Char) : List Char :=
  if '\n' ∈ text then dropReturn (text.takeWhile (· ≠ '\n')) else text

/-- A stretch of a line is before the first line feed. -/
theorem takeWhile_append {stretch : List Char} (h : '\n' ∉ stretch) (below : List Char) :
    (stretch ++ below).takeWhile (· ≠ '\n') = stretch ++ below.takeWhile (· ≠ '\n') := by
  refine List.takeWhile_append_of_pos fun c hc => ?_
  simpa using ne_of_mem_of_not_mem hc h

/-- Without a line feed all of a text is before the first one. -/
theorem takeWhile_of_notMem {text : List Char} (h : '\n' ∉ text) :
    text.takeWhile (· ≠ '\n') = text := by
  simpa using takeWhile_append h []

/-- The line feed ends the first line. -/
theorem takeWhile_feed {line : List Char} (h : '\n' ∉ line) (rest : List Char) :
    (line ++ '\n' :: rest).takeWhile (· ≠ '\n') = line := by
  simpa using takeWhile_append h ('\n' :: rest)

/-- A line that ends with a line feed is displayed without a carriage return at its end. -/
theorem toLineEnd_feed {line : List Char} (h : '\n' ∉ line) (rest : List Char) :
    toLineEnd (line ++ '\n' :: rest) = dropReturn line := by
  rw [toLineEnd, if_pos (by simp), takeWhile_feed h]

/-- A text is split at its first line feed. -/
theorem splitLine_eq (cs : List Char) : splitLine cs = (cs.takeWhile (· ≠ '\n'),
    if '\n' ∈ cs then some (cs.dropWhile (· ≠ '\n')).tail else none) := by
  induction cs with
  | nil => rfl
  | cons c cs ih =>
    rw [splitLine, ih]
    by_cases hc : c = '\n'
    · simp [hc]
    · simp [hc, Ne.symm hc]

/-- The first line is displayed, unless the text is empty. -/
theorem displayedLine?_zero (text : List Char) :
    displayedLine? 0 text = if text = [] then none else some (toLineEnd text) := by
  cases text with
  | nil => rfl
  | cons c cs =>
    rw [displayedLine?, splitLine_eq, if_neg (List.cons_ne_nil c cs), toLineEnd]
    by_cases hfeed : '\n' ∈ c :: cs
    · rw [if_pos hfeed, if_pos hfeed]
      rfl
    · rw [if_neg hfeed, if_neg hfeed, takeWhile_of_notMem hfeed]
      rfl

/-- **Full lines are passed over**: the line below them is the first one of what follows. -/
theorem displayedLine?_append {above : List Char} (h : FullLines above) (below : List Char) :
    displayedLine? (above.count '\n') (above ++ below) = displayedLine? 0 below := by
  -- The induction is on the number of lines; each step takes the first of them away.
  generalize hcount : above.count '\n' = n
  induction n generalizing above with
  | zero =>
    have hnil : above = [] := by
      by_contra hne
      obtain ⟨first, rest, rfl, -, -⟩ := h.exists_first hne
      simp at hcount
    rw [hnil, List.nil_append]
  | succ n ih =>
    have hne : above ≠ [] := by
      rintro rfl
      simp at hcount
    obtain ⟨first, rest, rfl, hfirst, hrest⟩ := h.exists_first hne
    have hcount' : rest.count '\n' = n := by
      rw [List.count_append, List.count_eq_zero.2 hfirst, List.count_cons_self] at hcount
      omega
    have hsplit : (splitLine (first ++ '\n' :: rest ++ below)).2 = some (rest ++ below) := by
      have hdrop : (first ++ '\n' :: rest ++ below).dropWhile (· ≠ '\n')
          = '\n' :: rest ++ below := by
        rw [List.append_assoc, List.dropWhile_append_of_pos]
        · rfl
        · intro c hc
          simpa using ne_of_mem_of_not_mem hc hfirst
      rw [splitLine_eq, hdrop, if_pos (by simp)]
      rfl
    obtain ⟨c, cs, hcs⟩ := List.exists_cons_of_ne_nil (List.append_ne_nil_of_left_ne_nil hne below)
    rw [hcs] at hsplit ⊢
    rw [displayedLine?, hsplit]
    exact ih hrest hcount'

/-- A carriage return is dropped from the end of a text only. -/
theorem dropReturn_append (stretch : List Char) {text : List Char} (h : text ≠ []) :
    dropReturn (stretch ++ text) = stretch ++ dropReturn text := by
  rw [dropReturn, dropReturn, List.getLast?_append_of_ne_nil stretch h,
    List.dropLast_append_of_ne_nil h]
  split <;> rfl

/-- A stretch of a line is displayed in front of what is left of the line, if no line feed comes
right after it. -/
theorem toLineEnd_append {stretch below : List Char} (hstretch : '\n' ∉ stretch)
    (hbelow : ∀ c ∈ below.head?, c ≠ '\n') :
    toLineEnd (stretch ++ below) = stretch ++ toLineEnd below := by
  have hmem : '\n' ∈ stretch ++ below ↔ '\n' ∈ below := by
    rw [List.mem_append, or_iff_right hstretch]
  rw [toLineEnd, toLineEnd]
  by_cases hfeed : '\n' ∈ below
  · rw [if_pos hfeed, if_pos (hmem.2 hfeed), takeWhile_append hstretch, dropReturn_append]
    cases below with
    | nil => cases hfeed
    | cons c cs => simp [hbelow c rfl]
  · rw [if_neg hfeed, if_neg (mt hmem.1 hfeed)]

/-! ## Carriage returns -/

/-- **The first line of a text ends with a carriage return** before its line feed. -/
def ReturnsFirst (text : List Char) : Prop :=
  ∃ line rest, text = line ++ '\r' :: '\n' :: rest ∧ '\n' ∉ line

/-- There is a line feed in such a text. -/
theorem ReturnsFirst.mem {text : List Char} (h : ReturnsFirst text) : '\n' ∈ text := by
  obtain ⟨line, rest, rfl, -⟩ := h
  simp

/-- Up to the line feed of a first line that ends with a carriage return there is one character more
than is displayed. -/
theorem ReturnsFirst.length_takeWhile {text : List Char} (h : ReturnsFirst text) :
    (text.takeWhile (· ≠ '\n')).length = (toLineEnd text).length + 1 := by
  obtain ⟨line, rest, rfl, hline⟩ := h
  have hreturn : '\n' ∉ line ++ ['\r'] := by simp [hline]
  have hdrop : dropReturn (line ++ ['\r']) = line := by
    rw [dropReturn_append line (List.cons_ne_nil _ _)]
    exact List.append_nil line
  rw [List.append_cons, takeWhile_feed hreturn, toLineEnd_feed hreturn, hdrop, List.length_append,
    List.length_singleton]

/-- Any other first line is displayed up to its line feed. -/
theorem toLineEnd_of_not_returnsFirst {text : List Char} (h : ¬ ReturnsFirst text) :
    toLineEnd text = text.takeWhile (· ≠ '\n') := by
  by_cases hfeed : '\n' ∈ text
  · obtain ⟨line, rest, rfl, hline⟩ := List.eq_append_cons_of_mem hfeed
    have hlast : line.getLast? ≠ some '\r' := by
      intro hreturn
      obtain ⟨init, rfl⟩ := List.getLast?_eq_some_iff.1 hreturn
      exact h ⟨init, rest, by simp, fun hmem => hline (List.mem_append_left _ hmem)⟩
    rw [toLineEnd_feed hline, takeWhile_feed hline, dropReturn, if_neg hlast]
  · rw [toLineEnd, if_neg hfeed, takeWhile_of_notMem hfeed]

/-- What comes after a line feed is not displayed. -/
theorem toLineEnd_append_of_mem {inside : List Char} (h : '\n' ∈ inside) (after : List Char) :
    toLineEnd (inside ++ after) = toLineEnd inside := by
  obtain ⟨line, rest, rfl, hline⟩ := List.eq_append_cons_of_mem h
  rw [List.append_assoc, List.cons_append, toLineEnd_feed hline, toLineEnd_feed hline]

/-- No more is displayed than there is. -/
theorem length_toLineEnd_le (text : List Char) : (toLineEnd text).length ≤ text.length := by
  by_cases h : ReturnsFirst text
  · have hlength := h.length_takeWhile
    have hle := (List.takeWhile_prefix (l := text) (· ≠ '\n')).length_le
    omega
  · rw [toLineEnd_of_not_returnsFirst h]
    exact (List.takeWhile_prefix _).length_le

/-- A spelling does not start with a blank. -/
theorem Token.Kind.Spells.ne_of_mem_head? {kind : Token.Kind} {inside after : List Char}
    (h : kind.Spells inside after) {blank : Char} (hblank : Token.isBlank blank) :
    ∀ c ∈ (inside ++ after).head?, c ≠ blank := by
  obtain ⟨c, cs, hcs, hc, -⟩ := h.exists_read
  rw [hcs]
  rintro d ⟨⟩ rfl
  exact hc hblank

/-- A spelling has characters on its first line. -/
theorem Token.Kind.Spells.length_takeWhile_pos {kind : Token.Kind} {inside after : List Char}
    (h : kind.Spells inside after) : 1 ≤ (inside.takeWhile (· ≠ '\n')).length := by
  obtain ⟨c, cs, rfl⟩ := List.exists_cons_of_ne_nil h.ne_nil
  have hc : c ≠ '\n' := h.ne_of_mem_head? (by decide) c rfl
  simp [hc]

/-- A spelling does not end with a blank, unless the text ends there too. -/
theorem Token.Kind.Spells.not_isBlank_getLast {kind : Token.Kind} {inside after : List Char}
    (h : kind.Spells inside after) (hafter : after ≠ []) :
    ∀ c ∈ inside.getLast?, ¬ Token.isBlank c := by
  intro d hd
  have hmem := List.mem_of_getLast? hd
  cases h with
  | punctuator symbol =>
    obtain rfl := List.mem_singleton.1 hmem
    exact (Token.Kind.not_start_of_symbol? symbol).1
  | name start continues =>
    intro hblank
    refine (Token.not_continues_of_isBlank hblank).1 ?_
    rcases List.mem_cons.1 hmem with rfl | hlater
    · exact Token.isNameContinue_of_isNameStart start
    · exact continues d hlater
  | int digits => exact fun hblank => (Token.not_continues_of_isBlank hblank).2 (digits d hmem)
  | string contents =>
    rw [List.getLast?_concat] at hd
    obtain rfl : '"' = d := Option.some.inj hd
    decide
  | openString contents => exact absurd rfl hafter
  | illegal noBlank =>
    obtain rfl := List.mem_singleton.1 hmem
    exact noBlank

/-! ## Rendered rows -/

/-- Nothing is padded to blanks. -/
theorem padLeft_empty (width : Nat) : padLeft width "" = String.ofList (List.replicate width ' ') :=
  String.append_empty

namespace Diagnostic

/-- The first rows of a rendering: the message, and the numbers of line and column. -/
def heading (message : String) (line column : Nat) : String :=
  "error: " ++ message ++ "\n  --> <input>:" ++ toString line ++ ":" ++ toString column ++ "\n"

/-- What stands in front of the bar of a row: a number or nothing, as wide as the number of the line
and at least two characters wide. -/
def margin (line : Nat) (text : String) : String := padLeft (max 2 (toString line).length) text

/-- The rows for a source line: an empty one, the line after its number, and carets after blanks. -/
def snippet (line : Nat) (text : List Char) (blanks carets : Nat) : String :=
  margin line "" ++ " |\n"
    ++ margin line (toString line) ++ " | " ++ String.ofList text ++ "\n"
    ++ margin line "" ++ " | " ++ String.ofList (List.replicate blanks ' ')
    ++ String.ofList (List.replicate carets '^') ++ "\n"

/-- **Both margins are of one width**, so that the line and the carets below it start at the same
distance from the left. -/
theorem length_margin (line : Nat) :
    (margin line (toString line)).length = (margin line "").length := by
  have hwidth : ∀ text : String, text.length ≤ max 2 (toString line).length →
      (margin line text).length = max 2 (toString line).length := by
    intro text htext
    rw [margin, padLeft, String.length_append, String.length_ofList, List.length_replicate]
    omega
  rw [hwidth _ (Nat.le_max_right _ _), hwidth "" (Nat.zero_le _)]

/-- **A diagnostic that is shown at a place.** The source text is cut before and after the `inside`
that the diagnostic points to; the rendering gives the place of the cut, and shows the line of the
cut over carets unless nothing is on it. -/
structure ShownAt (d : Diagnostic) (source above stretch inside after : List Char)
    (shown : Option (List Char)) : Prop where
  /-- The source text is full lines, a stretch of a line, what is pointed to, and the rest. -/
  source_eq : source = above ++ (stretch ++ (inside ++ after))
  /-- What is above are full lines. -/
  full : FullLines above
  /-- The stretch is on one line. -/
  unbroken : '\n' ∉ stretch
  /-- What is pointed to starts after the stretch. -/
  span_eq : d.span = ⟨byteLength (above ++ stretch),
    byteLength (above ++ stretch) + byteLength inside⟩
  /-- What is shown is the stretch and what comes after it up to the end of the line. -/
  shown_eq : shown = if stretch ++ (inside ++ after) = [] then none
    else some (stretch ++ toLineEnd (inside ++ after))
  /-- The rendering numbers lines by the line feeds above, and columns by the stretch. -/
  render_eq : d.render source = heading d.message (above.count '\n' + 1) (stretch.length + 1)
    ++ (shown.elim "" fun text =>
      snippet (above.count '\n' + 1) text stretch.length (d.caretCount source))

/-- **A diagnostic on a token** is shown where the token starts, over the line that starts with the
stretch before the token. -/
theorem exists_shownAt {source : String} (hsize : source.utf8ByteSize < 0x100000000) {t : Token}
    (ht : t ∈ Token.ofText source) {d : Diagnostic} (hd : d.span = t.span) :
    ∃ above stretch inside after shown, d.ShownAt source.toList above stretch inside after shown
      ∧ (t.kind.Spells inside after ∨ t.kind = .eof ∧ inside = [] ∧ after = []) := by
  obtain ⟨before, inside, after, hsource, hspan, hkind⟩ :=
    Token.exists_place_of_mem_ofText hsize ht
  obtain ⟨above, stretch, rfl, hfull, hunbroken⟩ := exists_fullLines before
  rw [List.append_assoc] at hsource
  refine ⟨above, stretch, inside, after, _,
    ⟨hsource, hfull, hunbroken, hd.trans hspan, rfl, ?_⟩, hkind⟩
  have hplace : d.location source.toList = ⟨above.count '\n', stretch.length⟩ := by
    rw [location, hd, hspan, hsource]
    exact Location.ofOffset_eq hfull hunbroken (inside ++ after)
  have hhead : ∀ c ∈ (inside ++ after).head?, c ≠ '\n' := by
    rcases hkind with hspells | ⟨-, rfl, rfl⟩
    · exact hspells.ne_of_mem_head? (by decide)
    · exact nofun
  have hshown : displayedLine? (above.count '\n') source.toList
      = if stretch ++ (inside ++ after) = [] then none
        else some (stretch ++ toLineEnd (inside ++ after)) := by
    rw [hsource, displayedLine?_append hfull, displayedLine?_zero, toLineEnd_append hunbroken hhead]
  rw [render, hplace]
  simp only [hshown]
  by_cases hnone : stretch ++ (inside ++ after) = []
  · simp only [if_pos hnone]
    exact (String.append_empty).symm
  · simp only [if_neg hnone, Option.elim_some, heading, snippet, margin, padLeft_empty,
      String.append_assoc]

/-- **A diagnostic points to its token.** On every source text whose offsets fit into thirty-two
bits, a diagnostic on one of its tokens is rendered with one more than the number of line feeds
before the token as the line, and with one more than the number of characters since the last of them
as the column. A source line is shown unless the token is the end of input on an empty line; it
starts with the characters before the token, and the carets come after as many blanks, behind
margins of one width. -/
theorem render_pointsAt {source : String} (hsize : source.utf8ByteSize < 0x100000000) {t : Token}
    (ht : t ∈ Token.ofText source) {d : Diagnostic} (hd : d.span = t.span) :
    ∃ above stretch inside after shown,
      d.ShownAt source.toList above stretch inside after shown
        ∧ (∀ text ∈ shown, stretch <+: text)
        ∧ (shown = none ↔ t.kind = .eof ∧ (source = "" ∨ source.toList.getLast? = some '\n'))
        ∧ ∀ line, (margin line (toString line)).length = (margin line "").length := by
  obtain ⟨above, stretch, inside, after, shown, hshown, hkind⟩ := exists_shownAt hsize ht hd
  refine ⟨above, stretch, inside, after, shown, hshown, ?_, ?_, length_margin⟩
  · intro text htext
    rw [hshown.shown_eq] at htext
    split at htext <;> cases htext
    exact List.prefix_append _ _
  · rw [hshown.shown_eq]
    rcases hkind with hspells | ⟨heof, rfl, rfl⟩
    · have hne : stretch ++ (inside ++ after) ≠ [] := by simp [hspells.ne_nil]
      rw [if_neg hne]
      exact iff_of_false (Option.some_ne_none _) fun h => hspells.ne_eof h.1
    · -- At the end of input only the stretch can be displayed.
      have hsource : source.toList = above ++ stretch := by simpa using hshown.source_eq
      have hempty : source = "" ↔ source.toList = [] := String.toList_eq_nil_iff.symm
      rw [hempty, ← fullLines_iff, hsource, hshown.full.append_iff hshown.unbroken]
      by_cases hnil : stretch = []
      · simp [hnil, heof]
      · simp [hnil]

/-- A diagnostic on a character that starts no token, on the second line, behind a character of two
bytes. -/
def onSecondLine : Diagnostic := ⟨"illegal", ⟨9, 10⟩, .illegalCharacter "#"⟩

/-- The first line ends inside a string. -/
theorem render_pointsAt_onSecondLine :
    (⟨.illegal "#", ⟨9, 10⟩⟩ : Token) ∈ Token.ofText "\"ä\r\nö\" #\n"
      ∧ ∃ above stretch inside after text,
        onSecondLine.ShownAt "\"ä\r\nö\" #\n".toList above stretch inside after (some text)
          ∧ stretch <+: text := by
  have ht : (⟨.illegal "#", ⟨9, 10⟩⟩ : Token) ∈ Token.ofText "\"ä\r\nö\" #\n" := by decide +kernel
  obtain ⟨above, stretch, inside, after, shown, hshown, hstretch, hnone, -⟩ :=
    render_pointsAt (by decide) ht (d := onSecondLine) rfl
  cases shown with
  | none => exact absurd (hnone.1 rfl).1 nofun
  | some text => exact ⟨ht, above, stretch, inside, after, text, hshown, hstretch text rfl⟩

example : render ⟨"illegal", ⟨9, 10⟩, .illegalCharacter "#"⟩ "\"ä\r\nö\" #\n".toList
    = "error: illegal\n  --> <input>:2:4\n   |\n 2 | ö\" #\n   |    ^\n" := by
  decide

/-! ## Carets -/

/-- The span of the diagnostic cuts out what is pointed to. -/
theorem ShownAt.slice?_eq {d : Diagnostic} {source above stretch inside after : List Char}
    {shown : Option (List Char)} (h : d.ShownAt source above stretch inside after shown) :
    d.span.slice? source = some inside := by
  rw [h.span_eq, h.source_eq, ← List.append_assoc]
  exact Span.slice?_between (above ++ stretch) inside after

/-- The carets are counted over what is pointed to, up to the end of its line. -/
theorem ShownAt.caretCount_eq {d : Diagnostic} {source above stretch inside after : List Char}
    {shown : Option (List Char)} (h : d.ShownAt source above stretch inside after shown) :
    d.caretCount source = max 1 (inside.takeWhile (· ≠ '\n')).length := by
  rw [caretCount, h.slice?_eq]

/-- **The characters of a token on the displayed line** are those that are displayed of the token
alone, whatever comes after it. -/
theorem take_toLineEnd {kind : Token.Kind} {inside after : List Char}
    (h : kind.Spells inside after) :
    (toLineEnd (inside ++ after)).take inside.length = toLineEnd inside := by
  by_cases hfeed : '\n' ∈ inside
  · rw [toLineEnd_append_of_mem hfeed]
    exact List.take_of_length_le (length_toLineEnd_le inside)
  · have hinside : toLineEnd inside = inside := by rw [toLineEnd, if_neg hfeed]
    rw [hinside]
    by_cases hend : after.head? = some '\n'
    · -- The line ends right after the token, which does not end with a carriage return.
      obtain ⟨more, rfl⟩ := List.head?_eq_some_iff.1 hend
      have hlast : inside.getLast? ≠ some '\r' := fun hreturn =>
        h.not_isBlank_getLast (List.cons_ne_nil _ _) _ hreturn (by decide)
      rw [toLineEnd_feed hfeed, dropReturn, if_neg hlast, List.take_length]
    · rw [toLineEnd_append hfeed, List.take_left]
      rintro c hc rfl
      exact hend hc

/-- The characters of what is pointed to that are on the displayed line, which starts with a
stretch of `column` characters before it. -/
def onLine (text : List Char) (column : Nat) (inside : List Char) : List Char :=
  (text.drop column).take inside.length

/-- **The carets cover what is displayed of the token**, unless the first line of the token ends
with a carriage return. It is counted then, though it is not displayed, so that there is one caret
too many, which stands beyond the end of the displayed line. The end of input is shown with one
caret. -/
theorem underline_iff_not_returnsFirst {source : String}
    (hsize : source.utf8ByteSize < 0x100000000) {t : Token} (ht : t ∈ Token.ofText source)
    {d : Diagnostic} (hd : d.span = t.span) :
    ∃ above stretch inside after shown,
      d.ShownAt source.toList above stretch inside after shown
        ∧ (t.kind = .eof → d.caretCount source.toList = 1)
        ∧ (t.kind ≠ .eof → ∃ text, shown = some text
          ∧ (d.caretCount source.toList = (onLine text stretch.length inside).length
            ↔ ¬ ReturnsFirst inside)
          ∧ (stretch.length + d.caretCount source.toList ≤ text.length ↔ ¬ ReturnsFirst inside)
          ∧ (ReturnsFirst inside →
            d.caretCount source.toList = (onLine text stretch.length inside).length + 1
              ∧ stretch.length + d.caretCount source.toList = text.length + 1)) := by
  obtain ⟨above, stretch, inside, after, shown, hshown, hkind⟩ := exists_shownAt hsize ht hd
  refine ⟨above, stretch, inside, after, shown, hshown, ?_, ?_⟩
  · intro heof
    rcases hkind with hspells | ⟨-, rfl, rfl⟩
    · exact absurd heof hspells.ne_eof
    · exact hshown.caretCount_eq
  · intro hne
    have hspells : t.kind.Spells inside after := hkind.resolve_right fun h => hne h.1
    have hline : stretch ++ (inside ++ after) ≠ [] := by simp [hspells.ne_nil]
    have hcarets : d.caretCount source.toList = (inside.takeWhile (· ≠ '\n')).length :=
      hshown.caretCount_eq.trans (Nat.max_eq_right hspells.length_takeWhile_pos)
    have hcovered := take_toLineEnd hspells
    have hwithin : (toLineEnd inside).length ≤ (toLineEnd (inside ++ after)).length := by
      rw [← hcovered]
      exact List.length_take_le' _ _
    refine ⟨_, hshown.shown_eq.trans (if_neg hline), ?_⟩
    rw [onLine, List.drop_left, hcovered, hcarets, List.length_append]
    by_cases hreturn : ReturnsFirst inside
    · have hmore := hreturn.length_takeWhile
      have hsame := toLineEnd_append_of_mem hreturn.mem after
      rw [hsame, hmore]
      refine ⟨iff_of_false (by omega) (not_not.2 hreturn),
        iff_of_false (by omega) (not_not.2 hreturn), fun _ => ⟨rfl, rfl⟩⟩
    · rw [← toLineEnd_of_not_returnsFirst hreturn]
      exact ⟨iff_of_true rfl hreturn, iff_of_true (Nat.add_le_add_left hwithin _) hreturn,
        fun h => absurd h hreturn⟩

/-- A diagnostic on a string of two lines, the first of which ends with a carriage return. -/
def onReturn : Diagnostic :=
  ⟨"expected a definition, found string \"a\r\nb\"", ⟨0, 6⟩,
    .unexpectedToken ["a definition"] "string \"a\r\nb\""⟩

/-- The displayed line has two characters, and three carets stand under it. -/
theorem underline_onReturn :
    onReturn.caretCount "\"a\r\nb\"".toList = 3
      ∧ ∃ above stretch inside after text,
        onReturn.ShownAt "\"a\r\nb\"".toList above stretch inside after (some text)
          ∧ (onLine text stretch.length inside).length = 2
          ∧ ¬ stretch.length + onReturn.caretCount "\"a\r\nb\"".toList ≤ text.length := by
  have hcount : onReturn.caretCount "\"a\r\nb\"".toList = 3 := by decide
  have ht : ⟨.string "a\r\nb", ⟨0, 6⟩⟩ ∈ Token.ofText "\"a\r\nb\"" := by decide +kernel
  obtain ⟨above, stretch, inside, after, shown, hshown, -, hcarets⟩ :=
    underline_iff_not_returnsFirst (by decide) ht (d := onReturn) rfl
  obtain ⟨text, rfl, -, hwithin, hmore⟩ := hcarets nofun
  have hinside : "\"a\r\nb\"".toList = inside := by
    have hslice := hshown.slice?_eq
    exact Option.some.inj ((by decide : some _ = _).trans hslice)
  have hreturn : ReturnsFirst inside := hinside ▸ ⟨['"', 'a'], ['b', '"'], by decide, by decide⟩
  refine ⟨hcount, above, stretch, inside, after, text, hshown, ?_, fun h => hwithin.1 h hreturn⟩
  have honLine := (hmore hreturn).1
  omega

end Diagnostic

end GraphQuery
