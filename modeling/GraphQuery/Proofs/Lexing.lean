import GraphQuery.Token.Lexer
import Mathlib.Data.List.TakeWhile

/-! # Reading tokens loses nothing

The text of a document is blanks and the spellings of its tokens, one after the other. Each token
stands over its own spelling, and names, integers and strings are as long as they can be.

The proof goes along the text. `LaidOut before cs lexed` says how the text `cs`, which comes after
`before`, is laid out as tokens; an offset is always the number of bytes of the text before it, so
that every border of a token is a border of characters. -/

namespace GraphQuery.Token

/-! ## Spellings -/

/-- **The spelling of a token**: the characters under it, given the text that comes after them. -/
inductive Kind.Spells : Kind → (inside after : List Char) → Prop where
  /-- A punctuator is its symbol. -/
  | punctuator {kind : Kind} {c : Char} {after : List Char} (symbol : kind.symbol? = some c) :
    Spells kind [c] after
  /-- A name is a letter or underscore and then letters, digits and underscores, as many as
  there are. -/
  | name {c : Char} {cs after : List Char} (start : isNameStart c)
    (continues : ∀ d ∈ cs, isNameContinue d) (maximal : ∀ d ∈ after.head?, ¬ isNameContinue d) :
    Spells (.name (String.ofList (c :: cs))) (c :: cs) after
  /-- An integer is digits, as many as there are. -/
  | int {c : Char} {cs after : List Char} (digits : ∀ d ∈ c :: cs, d.isDigit)
    (maximal : ∀ d ∈ after.head?, ¬ d.isDigit) :
    Spells (.int (String.ofList (c :: cs))) (c :: cs) after
  /-- A string is its contents between quotes. -/
  | string {cs after : List Char} (contents : '"' ∉ cs) :
    Spells (.string (String.ofList cs)) ('"' :: cs ++ ['"']) after
  /-- A string that is not closed goes on to the end of the text. -/
  | openString {cs : List Char} (contents : '"' ∉ cs) :
    Spells (.string (String.ofList cs)) ('"' :: cs) []
  /-- An illegal token is one character that starts no other token. -/
  | illegal {c : Char} {after : List Char} (noBlank : ¬ isBlank c)
    (noPunctuator : ∀ kind : Kind, kind.symbol? ≠ some c) (noString : c ≠ '"')
    (noName : ¬ isNameStart c) (noInt : ¬ c.isDigit) :
    Spells (.illegal (String.singleton c)) [c] after

/-- A spelling is not empty. -/
theorem Kind.Spells.ne_nil {kind : Kind} {inside after : List Char}
    (h : kind.Spells inside after) : inside ≠ [] := by
  cases h <;> simp

/-- The end of input has no spelling. -/
theorem Kind.Spells.ne_eof {kind : Kind} {inside after : List Char}
    (h : kind.Spells inside after) : kind ≠ .eof := by
  rintro rfl
  cases h with
  | punctuator symbol => simp [Kind.symbol?] at symbol

/-- A character that spells a punctuator is the symbol of the punctuator. -/
theorem Kind.symbol?_of_ofSymbol? {kind : Kind} {c : Char} (h : ofSymbol? c = some kind) :
    kind.symbol? = some c := by
  unfold ofSymbol? at h
  split at h <;> simp_all <;> subst h <;> rfl

/-- What comes after the longest run of a class of characters is not in the class. -/
theorem not_mem_of_head?_dropWhile {inClass : Char → Bool} {cs : List Char} :
    ∀ d ∈ (cs.dropWhile inClass).head?, ¬ inClass d := by
  intro d hd
  have hfalse := List.head?_dropWhile_not inClass cs
  rw [Option.mem_def.1 hd] at hfalse
  simpa using hfalse

/-- **Reading a lexeme** gives the spelling of a token. -/
theorem Lexeme.spells_read {c : Char} (cs : List Char) (hblank : ¬ isBlank c) :
    (read c cs).kind.Spells (read c cs).text (read c cs).rest := by
  unfold read
  split
  · next kind hkind => exact .punctuator (Kind.symbol?_of_ofSymbol? hkind)
  · next hkind =>
    split
    · next hquote =>
      -- What stops the contents is a quote, if anything does.
      have hcontents : '"' ∉ cs.takeWhile isNotQuote := by
        intro hmem
        simpa [isNotQuote] using List.mem_takeWhile_imp hmem
      have hclose : ∀ d ∈ (cs.dropWhile isNotQuote).head?, ¬ isNotQuote d :=
        not_mem_of_head?_dropWhile
      unfold quote
      split
      · exact .openString hcontents
      · next close rest hrest =>
        rw [hrest] at hclose
        have hclose' : close = '"' := by simpa [isNotQuote] using hclose
        subst hclose'
        exact .string hcontents
    · next hquote =>
      split
      · next hname =>
        exact .name hname (fun d hd => List.mem_takeWhile_imp hd) not_mem_of_head?_dropWhile
      · next hname =>
        split
        · next hint =>
          refine .int ?_ not_mem_of_head?_dropWhile
          rintro d (_ | ⟨_, hd⟩)
          · exact hint
          · exact List.mem_takeWhile_imp hd
        · next hint =>
          refine .illegal hblank (fun kind hsymbol => ?_) hquote hname hint
          rw [Kind.ofSymbol?_symbol? hsymbol] at hkind
          exact Option.some_ne_none kind hkind

/-- **A token that is spelled**: one that can be read from some text. -/
def IsSpelled (t : Token) : Prop := ∃ inside after, t.kind.Spells inside after

/-- However long a text is, reading it gives tokens that are spelled, and then one end of input. -/
theorem exists_isSpelled_lexFrom (offset : Nat) (cs : List Char) :
    ∃ lexed place, lexFrom offset cs = lexed ++ [⟨.eof, place⟩] ∧ ∀ t ∈ lexed, t.IsSpelled := by
  induction offset, cs using lexFrom.induct with
  | case1 offset => exact ⟨[], _, by rw [lexFrom, List.nil_append], by simp⟩
  | case2 offset c cs hblank ih =>
    obtain ⟨lexed, place, hlex, hspelled⟩ := ih
    exact ⟨lexed, place, by rw [lexFrom, if_pos hblank, hlex], hspelled⟩
  | case3 offset c cs hblank lexeme stop ih =>
    obtain ⟨lexed, place, hlex, hspelled⟩ := ih
    refine ⟨⟨lexeme.kind, .ofOffsets offset stop⟩ :: lexed, place, ?_, ?_⟩
    · rw [lexFrom, if_neg hblank, List.cons_append, ← hlex]
    · rintro t (_ | ⟨_, ht⟩)
      · exact ⟨lexeme.text, lexeme.rest, Lexeme.spells_read cs hblank⟩
      · exact hspelled t ht

/-! ## Laid out text -/

/-- **Laid out text**: a text, which comes after `before`, is blanks and the spellings of tokens,
each token over the bytes of its spelling. -/
inductive LaidOut : (before cs : List Char) → List Token → Prop where
  /-- The end of the text. -/
  | done (before : List Char) : LaidOut before [] []
  /-- A blank. -/
  | blank {before cs : List Char} {lexed : List Token} (c : Char) (isBlank : isBlank c)
    (more : LaidOut (before ++ [c]) cs lexed) : LaidOut before (c :: cs) lexed
  /-- The spelling of a token. -/
  | token {before inside after : List Char} {kind : Kind} {lexed : List Token}
    (spells : kind.Spells inside after) (more : LaidOut (before ++ inside) after lexed) :
    LaidOut before (inside ++ after)
      (⟨kind, ⟨byteLength before, byteLength before + byteLength inside⟩⟩ :: lexed)

/-- A blank is one byte. -/
theorem utf8Size_of_isBlank {c : Char} (h : isBlank c) : c.utf8Size = 1 := by
  simp only [isBlank, Bool.or_eq_true, decide_eq_true_eq] at h
  rcases h with ((rfl | rfl) | rfl) | rfl <;> rfl

/-- **Reading the rest of a text as tokens** lays it out, and ends at its end. -/
theorem lexFrom_eq_append {before cs : List Char}
    (h : byteLength (before ++ cs) ≤ Span.maxOffset) :
    ∃ lexed, lexFrom (byteLength before) cs
        = lexed ++ [⟨.eof, ⟨byteLength (before ++ cs), byteLength (before ++ cs)⟩⟩]
      ∧ LaidOut before cs lexed := by
  -- The induction is along the recursion of the lexer; the offset is where the text before ends.
  generalize hoffset : byteLength before = offset
  induction offset, cs using lexFrom.induct generalizing before with
  | case1 offset =>
    subst hoffset
    rw [List.append_nil] at h ⊢
    exact ⟨[], by rw [lexFrom, Span.ofOffsets_eq h h]; rfl, .done before⟩
  | case2 offset c cs hblank ih =>
    subst hoffset
    have hsize : byteLength (before ++ [c]) = byteLength before + 1 := by
      simp [utf8Size_of_isBlank hblank]
    rw [List.append_cons] at h ⊢
    obtain ⟨lexed, hlex, hlaid⟩ := ih h hsize
    refine ⟨lexed, ?_, .blank c hblank hlaid⟩
    rw [lexFrom, if_pos hblank, hlex]
  | case3 offset c cs hblank lexeme stop =>
    rename_i ih
    subst hoffset
    have htext : lexeme.text ++ lexeme.rest = c :: cs := Lexeme.text_append_rest c cs
    have hstop : byteLength (before ++ lexeme.text) = byteLength before + byteLength lexeme.text :=
      byteLength_append ..
    rw [← htext, ← List.append_assoc] at h ⊢
    obtain ⟨lexed, hlex, hlaid⟩ := ih h hstop
    -- The token ends in bounds, so its offsets are not cut.
    have hspan : Span.ofOffsets (byteLength before) (byteLength before + byteLength lexeme.text)
        = ⟨byteLength before, byteLength before + byteLength lexeme.text⟩ := by
      rw [byteLength_append, hstop] at h
      exact Span.ofOffsets_eq (by omega) (by omega)
    refine ⟨⟨lexeme.kind, ⟨byteLength before, byteLength before + byteLength lexeme.text⟩⟩ :: lexed,
      ?_, .token (Lexeme.spells_read cs hblank) hlaid⟩
    rw [htext, lexFrom, if_neg hblank, List.cons_append, ← hlex]
    show (⟨lexeme.kind, .ofOffsets (byteLength before) stop⟩ : Token)
      :: lexFrom stop lexeme.rest = _
    rw [hspan]

namespace LaidOut

variable {before cs : List Char} {lexed : List Token} {t : Token}

/-- Every token stands over its spelling. -/
theorem exists_spells (h : LaidOut before cs lexed) (ht : t ∈ lexed) :
    ∃ between inside after, cs = between ++ (inside ++ after)
      ∧ t.span = ⟨byteLength (before ++ between),
          byteLength (before ++ between) + byteLength inside⟩
      ∧ t.kind.Spells inside after := by
  induction h with
  | done before => simp at ht
  | blank c isBlank more ih =>
    obtain ⟨between, inside, after, hcs, hspan, hspells⟩ := ih ht
    refine ⟨c :: between, inside, after, by rw [hcs]; rfl, ?_, hspells⟩
    rw [hspan, List.append_assoc, List.singleton_append]
  | @token before inside after kind lexed spells more ih =>
    rcases List.mem_cons.1 ht with rfl | ht
    · exact ⟨[], inside, after, rfl, by rw [List.append_nil], spells⟩
    · obtain ⟨between, inside', after', hcs, hspan, hspells⟩ := ih ht
      refine ⟨inside ++ between, inside', after', by rw [hcs, List.append_assoc], ?_, hspells⟩
      rw [hspan, List.append_assoc]

/-- No token starts before the text that is laid out. -/
theorem byteLength_le_start (h : LaidOut before cs lexed) (ht : t ∈ lexed) :
    byteLength before ≤ t.span.start := by
  obtain ⟨between, inside, after, -, hspan, -⟩ := h.exists_spells ht
  rw [hspan, byteLength_append]
  exact Nat.le_add_right _ _

/-- Each token stops before the next one starts. -/
theorem pairwise (h : LaidOut before cs lexed) :
    lexed.Pairwise fun s t => s.span.stop ≤ t.span.start := by
  induction h with
  | done before => exact .nil
  | blank c isBlank more ih => exact ih
  | token spells more ih =>
    refine List.pairwise_cons.2 ⟨fun t ht => ?_, ih⟩
    have hstart := more.byteLength_le_start ht
    rwa [byteLength_append] at hstart

end LaidOut

/-! ## Bytes -/

/-- The bytes of the UTF-8 form of a text. -/
def utf8 (cs : List Char) : List UInt8 := cs.flatMap String.utf8EncodeChar

@[simp] theorem utf8_append (as bs : List Char) : utf8 (as ++ bs) = utf8 as ++ utf8 bs :=
  List.flatMap_append

/-- There are as many bytes as are counted. -/
@[simp] theorem length_utf8 (cs : List Char) : (utf8 cs).length = byteLength cs := by
  induction cs with
  | nil => rfl
  | cons c cs ih =>
    rw [utf8, List.flatMap_cons, List.length_append, String.length_utf8EncodeChar, byteLength_cons,
      ← ih, utf8]

/-- A text is encoded as these bytes. -/
theorem toByteArray_utf8_toList (source : String) :
    (utf8 source.toList).toByteArray = source.toByteArray := String.utf8Encode_toList

/-- The bytes of a string are counted in the same way. -/
theorem byteLength_toList (source : String) : byteLength source.toList = source.utf8ByteSize := by
  rw [← length_utf8, ← String.size_toByteArray, ← toByteArray_utf8_toList, List.size_toByteArray]

/-- The bytes that separate tokens: space, tab, carriage return and line feed. -/
def blankBytes : List UInt8 := [0x20, 0x09, 0x0d, 0x0a]

/-- The byte of a blank separates tokens. -/
theorem utf8_of_isBlank {c : Char} (h : isBlank c) : ∃ b ∈ blankBytes, utf8 [c] = [b] := by
  simp only [isBlank, Bool.or_eq_true, decide_eq_true_eq] at h
  rcases h with ((rfl | rfl) | rfl) | rfl <;> decide

/-- **Every byte outside of all tokens separates tokens.** -/
theorem LaidOut.mem_blankBytes {before cs : List Char} {lexed : List Token}
    (h : LaidOut before cs lexed) {k : Nat} {b : UInt8}
    (hb : (utf8 (before ++ cs))[k]? = some b) (hk : byteLength before ≤ k)
    (hout : ∀ t ∈ lexed, ¬ (t.span.start ≤ k ∧ k < t.span.stop)) : b ∈ blankBytes := by
  induction h with
  | done before =>
    rw [List.append_nil, List.getElem?_eq_none (by rwa [length_utf8])] at hb
    simp at hb
  | @blank before cs lexed c isBlank more ih =>
    obtain ⟨b', hb', hc⟩ := utf8_of_isBlank isBlank
    rw [List.append_cons] at hb
    -- The byte is that of this blank, or it lies after it.
    rcases Nat.eq_or_lt_of_le hk with hk | hk
    · rw [utf8_append, utf8_append, hc, List.append_assoc,
        List.getElem?_append_right (by simp [hk]), length_utf8, hk, Nat.sub_self] at hb
      obtain rfl : b' = b := by simpa using hb
      exact hb'
    · refine ih hb ?_ hout
      simp [utf8Size_of_isBlank isBlank]
      omega
  | @token before inside after kind lexed spells more ih =>
    -- The byte is not under this token, so it lies after it.
    have hfirst := hout _ List.mem_cons_self
    rw [← List.append_assoc] at hb
    refine ih hb ?_ fun t ht => hout t (List.mem_cons_of_mem _ ht)
    rw [byteLength_append]
    simp only at hfirst
    omega

/-! ## Source texts -/

/-- **A token stands in a text** where its span cuts out its spelling, at borders of characters. -/
def StandsIn (t : Token) (source : List Char) : Prop :=
  ∃ before inside after, source = before ++ (inside ++ after)
    ∧ t.span = ⟨byteLength before, byteLength before + byteLength inside⟩
    ∧ t.span.slice? source = some inside ∧ t.kind.Spells inside after

/-- A token that stands in a text is not the end of input. -/
theorem StandsIn.ne_eof {t : Token} {source : List Char} (h : t.StandsIn source) :
    t.kind ≠ .eof := by
  obtain ⟨before, inside, after, -, -, -, hspells⟩ := h
  exact hspells.ne_eof

/-- A token that stands in a text covers at least one byte of it. -/
theorem StandsIn.start_lt_stop {t : Token} {source : List Char} (h : t.StandsIn source) :
    t.span.start < t.span.stop := by
  obtain ⟨before, inside, after, -, hspan, -, hspells⟩ := h
  obtain ⟨c, cs, rfl⟩ := List.exists_cons_of_ne_nil hspells.ne_nil
  have hpos := Char.utf8Size_pos c
  rw [hspan, byteLength_cons]
  show byteLength before < byteLength before + (c.utf8Size + byteLength cs)
  omega

/-- A token that stands in a text stops in bounds. -/
theorem StandsIn.stop_le {t : Token} {source : List Char} (h : t.StandsIn source) :
    t.span.stop ≤ byteLength source := by
  obtain ⟨before, inside, after, hsource, hspan, -, -⟩ := h
  rw [hspan, hsource]
  simp only [byteLength_append]
  omega

/-- **A lossless reading** of a source text as tokens. -/
structure Lossless (source : String) (lexed : List Token) : Prop where
  /-- The input does not end among the tokens. -/
  noEof : ∀ t ∈ lexed, t.kind ≠ .eof
  /-- Every span covers something. -/
  nonempty : ∀ t ∈ lexed, t.span.start < t.span.stop
  /-- Spans lie in bounds. -/
  inBounds : ∀ t ∈ lexed, t.span.stop ≤ source.utf8ByteSize
  /-- Spans increase, and no two of them overlap. -/
  increasing : lexed.Pairwise fun s t => s.span.stop ≤ t.span.start
  /-- Every span cuts out the spelling of its token. -/
  spelled : ∀ t ∈ lexed, t.StandsIn source.toList
  /-- Every byte outside of all spans separates tokens. -/
  blank : ∀ (k : Nat) (h : k < source.toByteArray.size),
    (∀ t ∈ lexed, ¬ (t.span.start ≤ k ∧ k < t.span.stop)) → source.toByteArray[k] ∈ blankBytes

/-- A text that is laid out is read without loss. -/
theorem LaidOut.lossless {source : String} {lexed : List Token}
    (h : LaidOut [] source.toList lexed) : Lossless source lexed := by
  have hspelled : ∀ t ∈ lexed, t.StandsIn source.toList := by
    intro t ht
    obtain ⟨before, inside, after, hsource, hspan, hspells⟩ := h.exists_spells ht
    rw [List.nil_append] at hspan
    refine ⟨before, inside, after, hsource, hspan, ?_, hspells⟩
    rw [hspan, hsource, Span.slice?_between]
  constructor
  · exact fun t ht => (hspelled t ht).ne_eof
  · exact fun t ht => (hspelled t ht).start_lt_stop
  · intro t ht
    rw [← byteLength_toList]
    exact (hspelled t ht).stop_le
  · exact h.pairwise
  · exact hspelled
  · intro k hk hout
    refine h.mem_blankBytes (k := k) ?_ (Nat.zero_le k) hout
    -- The bytes of the string are those of its list of characters.
    have hk' : k < (utf8 source.toList).length := by
      rwa [length_utf8, byteLength_toList, ← String.size_toByteArray]
    rw [List.nil_append, List.getElem?_eq_getElem hk']
    simp only [← toByteArray_utf8_toList source, List.getElem_toByteArray]

/-- **Every token of a source text has a place in it**: it stands over its spelling, or it is the
end of input and stands over nothing, after the last character. -/
theorem exists_place_of_mem_ofText {source : String} {t : Token}
    (h : source.utf8ByteSize < 0x100000000) (ht : t ∈ ofText source) :
    ∃ before inside after, source.toList = before ++ (inside ++ after)
      ∧ t.span = ⟨byteLength before, byteLength before + byteLength inside⟩
      ∧ (t.kind.Spells inside after ∨ t.kind = .eof ∧ inside = [] ∧ after = []) := by
  have hmax : byteLength ([] ++ source.toList) ≤ Span.maxOffset := by
    rw [List.nil_append, byteLength_toList]
    exact Nat.le_of_lt_succ h
  obtain ⟨lexed, hlex, hlaid⟩ := lexFrom_eq_append hmax
  have hmem : t ∈ lexed ++ [⟨.eof, ⟨byteLength source.toList, byteLength source.toList⟩⟩] :=
    hlex ▸ ht
  rcases List.mem_append.1 hmem with ht | ht
  · obtain ⟨before, inside, after, hsource, hspan, hspells⟩ := hlaid.exists_spells ht
    exact ⟨before, inside, after, hsource, hspan, .inl hspells⟩
  · obtain rfl := List.mem_singleton.1 ht
    exact ⟨source.toList, [], [], by simp, rfl, .inr ⟨rfl, rfl, rfl⟩⟩

/-- **Reading tokens loses nothing and invents nothing**: the tokens of a source text whose
offsets fit into thirty-two bits are a lossless reading of it, and then one end of input at its
end. -/
theorem exists_lossless_ofText (source : String) (h : source.utf8ByteSize < 0x100000000) :
    ∃ lexed, ofText source
        = lexed ++ [⟨.eof, ⟨source.utf8ByteSize, source.utf8ByteSize⟩⟩]
      ∧ Lossless source lexed := by
  have hmax : byteLength ([] ++ source.toList) ≤ Span.maxOffset := by
    rw [List.nil_append, byteLength_toList]
    exact Nat.le_of_lt_succ h
  obtain ⟨lexed, hlex, hlaid⟩ := lexFrom_eq_append hmax
  rw [List.nil_append, byteLength_toList] at hlex
  exact ⟨lexed, hlex, hlaid.lossless⟩

/-- Characters of two bytes, as an illegal token and inside a string, and a string that is not
closed. -/
theorem exists_lossless_ofText_umlauts :
    ∃ lexed, ofText "f(ä: \"ö\", b: \"12)" = lexed ++ [⟨.eof, ⟨19, 19⟩⟩]
      ∧ Lossless "f(ä: \"ö\", b: \"12)" lexed :=
  exists_lossless_ofText "f(ä: \"ö\", b: \"12)" (by decide)

end GraphQuery.Token
