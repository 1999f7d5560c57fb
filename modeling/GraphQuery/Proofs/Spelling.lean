import GraphQuery.Proofs.Lexing
import GraphQuery.Proofs.Nodes

/-! # Writing tokens

What a text is read as depends on its characters alone, and not on the place where it starts
(`kindsOf`). The spelling of a token at the head of a text is read first, whatever token it is
(`Kind.Spells.lexFrom_append`). So tokens that are written with a blank between them are read back
(`map_kind_ofText_intercalate`). -/

namespace GraphQuery.Token

/-! ## The first character -/

/-- The symbol of a punctuator starts nothing else. -/
theorem Kind.not_start_of_symbol? {kind : Kind} {c : Char} (h : kind.symbol? = some c) :
    ¬ isBlank c ∧ c ≠ '"' ∧ ¬ isNameStart c ∧ ¬ c.isDigit := by
  cases kind with
  | opening shape => cases shape <;> cases h <;> decide
  | closing shape => cases shape <;> cases h <;> decide
  | bang | colon | comma | dollar | equals | semicolon => cases h; decide
  | name | int | string | illegal | eof => cases h

/-- A character that is the symbol of no punctuator is read as none. -/
theorem Kind.ofSymbol?_eq_none {c : Char} (h : ∀ kind : Kind, kind.symbol? ≠ some c) :
    ofSymbol? c = none := by
  cases hkind : ofSymbol? c with
  | none => rfl
  | some kind => exact absurd (symbol?_of_ofSymbol? hkind) (h kind)

/-- A blank goes on with no name and no integer. -/
theorem not_continues_of_isBlank {c : Char} (h : isBlank c) :
    ¬ isNameContinue c ∧ ¬ c.isDigit := by
  simp only [isBlank, Bool.or_eq_true, decide_eq_true_eq] at h
  rcases h with ((rfl | rfl) | rfl) | rfl <;> decide

/-- What starts a name goes on with one. -/
theorem isNameContinue_of_isNameStart {c : Char} (h : isNameStart c) : isNameContinue c := by
  simp only [isNameStart, isNameContinue, Char.isAlphanum, Bool.or_eq_true] at h ⊢
  exact h.imp_left .inl

/-- A digit starts no name. -/
theorem not_isNameStart_of_isDigit {c : Char} (h : c.isDigit) : ¬ isNameStart c := by
  intro hstart
  simp only [isNameStart, Bool.or_eq_true, decide_eq_true_eq] at hstart
  -- The digits come before the letters.
  have hnine : c.val ≤ '9'.val := of_decide_eq_true (Bool.and_eq_true_iff.1 h).2
  rcases hstart with halpha | rfl
  · rcases Bool.or_eq_true_iff.1 halpha with hupper | hlower
    · have hfirst : 'A'.val ≤ c.val := (of_decide_eq_true hupper).1
      exact absurd (UInt32.le_trans hfirst hnine) (by decide)
    · have hfirst : 'a'.val ≤ c.val := of_decide_eq_true (Bool.and_eq_true_iff.1 hlower).1
      exact absurd (UInt32.le_trans hfirst hnine) (by decide)
  · exact absurd h (by decide)

/-! ## Reading what is spelled -/

/-- The longest run of a class of characters ends where the next character is not in the class. -/
theorem span_of_maximal {inClass : Char → Bool} {cs after : List Char}
    (hcs : ∀ d ∈ cs, inClass d) (hafter : ∀ d ∈ after.head?, ¬ inClass d) :
    (cs ++ after).takeWhile inClass = cs ∧ (cs ++ after).dropWhile inClass = after := by
  rw [List.takeWhile_append_of_pos hcs, List.dropWhile_append_of_pos hcs]
  cases after with
  | nil => simp
  | cons d after =>
    have hd : ¬ inClass d := hafter d rfl
    simp [hd]

/-- A run of a class of characters is read up to where it ends. -/
theorem Lexeme.run_append {inClass : Char → Bool} {c : Char} {cs after : List Char}
    (toKind : String → Kind) (hcs : ∀ d ∈ cs, inClass d) (hafter : ∀ d ∈ after.head?, ¬ inClass d) :
    run toKind inClass c (cs ++ after)
      = ⟨toKind (String.ofList (c :: cs)), c :: cs, after⟩ := by
  obtain ⟨htake, hdrop⟩ := span_of_maximal hcs hafter
  rw [run, htake, hdrop]

/-- The contents of a string are read up to its closing quote. -/
theorem Lexeme.quote_append {cs : List Char} (hcs : '"' ∉ cs) (after : List Char) :
    quote (cs ++ '"' :: after) = ⟨.string (String.ofList cs), '"' :: cs ++ ['"'], after⟩
      ∧ quote cs = ⟨.string (String.ofList cs), '"' :: cs, []⟩ := by
  have hcontents : ∀ d ∈ cs, isNotQuote d := by
    rintro d hd
    have hne : d ≠ '"' := fun heq => hcs (heq ▸ hd)
    simpa [isNotQuote] using hne
  constructor
  · have hclose : ∀ d ∈ ('"' :: after).head?, ¬ isNotQuote d := by simp [isNotQuote]
    obtain ⟨htake, hdrop⟩ := span_of_maximal hcontents hclose
    rw [quote, htake, hdrop]
  · have hend : ∀ d ∈ ([] : List Char).head?, ¬ isNotQuote d := by simp
    obtain ⟨htake, hdrop⟩ := span_of_maximal hcontents hend
    rw [List.append_nil] at htake hdrop
    rw [quote, htake, hdrop]

/-- **What is spelled is read**: the lexeme at the head of a text is the token that is spelled
there. -/
theorem Kind.Spells.exists_read {kind : Kind} {inside after : List Char}
    (h : kind.Spells inside after) :
    ∃ c cs, inside ++ after = c :: cs ∧ ¬ isBlank c
      ∧ Lexeme.read c cs = ⟨kind, inside, after⟩ := by
  -- In each case, the classes that are tried before the right one are ruled out.
  cases h with
  | @punctuator kind c after symbol =>
    refine ⟨c, after, rfl, (not_start_of_symbol? symbol).1, ?_⟩
    rw [Lexeme.read, ofSymbol?_symbol? symbol]
  | @name c cs after start continues maximal =>
    have hsymbol : ofSymbol? c = none :=
      ofSymbol?_eq_none fun kind hkind => (not_start_of_symbol? hkind).2.2.1 start
    have hblank : ¬ isBlank c := fun hblank =>
      (not_continues_of_isBlank hblank).1 (isNameContinue_of_isNameStart start)
    have hquote : c ≠ '"' := by
      rintro rfl
      exact absurd start (by decide)
    refine ⟨c, cs ++ after, rfl, hblank, ?_⟩
    rw [Lexeme.read, hsymbol]
    simp only [if_neg hquote, if_pos start]
    exact Lexeme.run_append .name continues maximal
  | @int c cs after digits maximal =>
    have hdigit : c.isDigit := digits c List.mem_cons_self
    have hsymbol : ofSymbol? c = none :=
      ofSymbol?_eq_none fun kind hkind => (not_start_of_symbol? hkind).2.2.2 hdigit
    have hblank : ¬ isBlank c := fun hblank => (not_continues_of_isBlank hblank).2 hdigit
    have hquote : c ≠ '"' := by
      rintro rfl
      exact absurd hdigit (by decide)
    refine ⟨c, cs ++ after, rfl, hblank, ?_⟩
    rw [Lexeme.read, hsymbol]
    simp only [if_neg hquote, if_neg (not_isNameStart_of_isDigit hdigit), if_pos hdigit]
    exact Lexeme.run_append .int (fun d hd => digits d (List.mem_cons_of_mem c hd)) maximal
  | @string cs after contents =>
    refine ⟨'"', cs ++ '"' :: after, by simp, by decide, ?_⟩
    exact (Lexeme.quote_append contents after).1
  | @openString cs contents =>
    refine ⟨'"', cs, by simp, by decide, ?_⟩
    exact (Lexeme.quote_append contents []).2
  | @illegal c after noBlank noPunctuator noString noName noInt =>
    refine ⟨c, after, rfl, noBlank, ?_⟩
    rw [Lexeme.read, ofSymbol?_eq_none noPunctuator]
    simp only [if_neg noString, if_neg noName, if_neg noInt]

/-- **The spelling of a token at the head of a text** is read first, and then what comes after
it. -/
theorem Kind.Spells.lexFrom_append {kind : Kind} {inside after : List Char}
    (h : kind.Spells inside after) (offset : Nat) :
    lexFrom offset (inside ++ after)
      = ⟨kind, .ofOffsets offset (offset + byteLength inside)⟩
          :: lexFrom (offset + byteLength inside) after := by
  obtain ⟨c, cs, htext, hblank, hread⟩ := h.exists_read
  rw [htext, lexFrom, if_neg hblank, hread]

/-! ## The kinds of the tokens of a text -/

/-- **The kinds of the tokens** that a text is read as. -/
def kindsOf (cs : List Char) : List Kind := (lexFrom 0 cs).map Token.kind

/-- Wherever a text starts, its tokens are of the same kinds. -/
theorem map_kind_lexFrom (offset : Nat) (cs : List Char) :
    (lexFrom offset cs).map Token.kind = kindsOf cs := by
  have hoffset : ∀ offset', (lexFrom offset cs).map Token.kind
      = (lexFrom offset' cs).map Token.kind := by
    induction offset, cs using lexFrom.induct with
    | case1 offset =>
      intro offset'
      rw [lexFrom, lexFrom]
      rfl
    | case2 offset c cs hblank ih =>
      intro offset'
      rw [lexFrom, if_pos hblank, lexFrom, if_pos hblank]
      exact ih _
    | case3 offset c cs hblank lexeme stop ih =>
      intro offset'
      rw [lexFrom, if_neg hblank, lexFrom, if_neg hblank, List.map_cons, List.map_cons]
      exact congrArg _ (ih _)
  exact hoffset 0

/-- The kinds of the tokens of a source text. -/
theorem map_kind_ofText (source : String) :
    (ofText source).map Token.kind = kindsOf source.toList := rfl

/-- Where a text ends, the input ends. -/
@[simp] theorem kindsOf_nil : kindsOf [] = [.eof] := by
  rw [kindsOf, lexFrom]
  rfl

/-- A blank is skipped. -/
theorem kindsOf_cons_of_isBlank {c : Char} (h : isBlank c) (cs : List Char) :
    kindsOf (c :: cs) = kindsOf cs := by
  rw [kindsOf, lexFrom, if_pos h, map_kind_lexFrom]

/-- Any number of blanks is skipped. -/
theorem kindsOf_append_of_isBlank {blanks : List Char} (h : ∀ c ∈ blanks, isBlank c)
    (cs : List Char) : kindsOf (blanks ++ cs) = kindsOf cs := by
  induction blanks with
  | nil => rfl
  | cons c blanks ih =>
    have hc : isBlank c := h c List.mem_cons_self
    have hrest : ∀ d ∈ blanks, isBlank d := fun d hd => h d (List.mem_cons_of_mem c hd)
    rw [List.cons_append, kindsOf_cons_of_isBlank hc, ih hrest]

/-- A token that is spelled is read, and then what comes after it. -/
theorem Kind.Spells.kindsOf_append {kind : Kind} {inside after : List Char}
    (h : kind.Spells inside after) : kindsOf (inside ++ after) = kind :: kindsOf after := by
  rw [kindsOf, h.lexFrom_append, List.map_cons, map_kind_lexFrom]

/-! ## Writing and reading back -/

namespace Kind

/-- **A stray character** starts no token and is no blank. -/
structure IsStray (c : Char) : Prop where
  /-- It is no space, tab, carriage return or line feed. -/
  noBlank : ¬ isBlank c
  /-- It is the symbol of no punctuator. -/
  noPunctuator : ∀ kind : Kind, kind.symbol? ≠ some c
  /-- It is no quote. -/
  noQuote : c ≠ '"'
  /-- It is no ASCII letter and no underscore. -/
  noNameStart : ¬ isNameStart c
  /-- It is no ASCII digit. -/
  noDigit : ¬ c.isDigit

/-- **Whether a token can be written**: its text is one that such a token can have. The end of input
has no text. -/
def IsWritable : Kind → Prop
  | name text => IsIdentifier text
  | int digits => IsDigits digits
  | string contents => '"' ∉ contents.toList
  | illegal text => ∃ c, text = String.singleton c ∧ IsStray c
  | eof => False
  | bang | colon | comma | dollar | equals | semicolon | opening _ | closing _ => True

/-- **The text that a token is written as**: a string between quotes, and otherwise the symbol or
the text that the token carries. -/
def written : Kind → String
  | string contents => "\"" ++ contents ++ "\""
  | kind => kind.literal

/-- A punctuator is written as its symbol. -/
theorem spells_written_of_symbol? {kind : Kind} {c : Char} (h : kind.symbol? = some c)
    (after : List Char) : kind.Spells kind.written.toList after := by
  have hwritten : kind.written = String.singleton c := by
    cases kind with
    | opening shape => cases shape <;> cases h <;> rfl
    | closing shape => cases shape <;> cases h <;> rfl
    | bang | colon | comma | dollar | equals | semicolon => cases h; rfl
    | name | int | string | illegal | eof => cases h
  rw [hwritten, String.toList_singleton]
  exact .punctuator h

/-- An identifier is spelled in front of anything that does not go on with it. -/
theorem spells_name {text : String} (h : IsIdentifier text) {after : List Char}
    (hafter : ∀ d ∈ after.head?, ¬ isNameContinue d) : (name text).Spells text.toList after := by
  obtain ⟨c, cs, htext, hstart, hcontinues⟩ := h
  have hspells := @Spells.name c cs after (by simpa [isNameStart] using hstart)
    (fun d hd => by simpa [isNameContinue] using hcontinues d hd) hafter
  rwa [← htext, String.ofList_toList] at hspells

/-- **What is written is spelled**, at the end of the text or in front of a blank. -/
theorem IsWritable.spells_written {kind : Kind} (h : kind.IsWritable) {after : List Char}
    (hafter : ∀ d ∈ after.head?, isBlank d) : kind.Spells kind.written.toList after := by
  have hname : ∀ d ∈ after.head?, ¬ isNameContinue d :=
    fun d hd => (not_continues_of_isBlank (hafter d hd)).1
  have hint : ∀ d ∈ after.head?, ¬ d.isDigit :=
    fun d hd => (not_continues_of_isBlank (hafter d hd)).2
  cases kind with
  | name text => exact spells_name h hname
  | int digits =>
    obtain ⟨hne, hdigits⟩ := h
    obtain ⟨c, cs, htext⟩ := List.exists_cons_of_ne_nil hne
    have hspells := @Spells.int c cs after (fun d hd => hdigits d (htext ▸ hd)) hint
    rwa [← htext, String.ofList_toList] at hspells
  | string contents =>
    have hspells := @Spells.string contents.toList after h
    rw [String.ofList_toList] at hspells
    simpa [written] using hspells
  | illegal text =>
    obtain ⟨c, rfl, hc⟩ := h
    have hspells := @Spells.illegal c after hc.noBlank hc.noPunctuator hc.noQuote
      hc.noNameStart hc.noDigit
    simpa [written, literal] using hspells
  | eof => exact h.elim
  | bang | colon | comma | dollar | equals | semicolon | opening shape | closing shape =>
    exact spells_written_of_symbol? rfl after

end Kind

/-- Tokens that are written with a space between each two of them are read one by one. -/
theorem kindsOf_intercalate {kinds : List Kind} (h : ∀ kind ∈ kinds, kind.IsWritable) :
    kindsOf ([' '].intercalate (kinds.map fun kind => kind.written.toList)) = kinds ++ [.eof] := by
  induction kinds with
  | nil => exact kindsOf_nil
  | cons kind rest ih =>
    have hkind : kind.IsWritable := h kind List.mem_cons_self
    have hrest := ih fun other hother => h other (List.mem_cons_of_mem kind hother)
    cases rest with
    | nil =>
      have hspells : kind.Spells kind.written.toList [] := hkind.spells_written (by simp)
      simpa using hspells.kindsOf_append
    | cons other rest =>
      -- The first token ends before a space, and reading goes on after the space.
      have hspells : ∀ after, kind.Spells kind.written.toList (' ' :: after) :=
        fun after => hkind.spells_written (by simp [isBlank])
      have hspace : isBlank ' ' := by decide
      rw [List.map_cons, List.map_cons, List.intercalate_cons_cons, List.append_assoc,
        List.singleton_append, (hspells _).kindsOf_append, kindsOf_cons_of_isBlank hspace]
      exact congrArg (List.cons kind) hrest

/-- **Tokens that are written are read back**: their texts with a space between each two of them are
read as tokens of the same kinds, and then the end of input. -/
theorem map_kind_ofText_intercalate {kinds : List Kind} (h : ∀ kind ∈ kinds, kind.IsWritable) :
    (ofText (String.intercalate " " (kinds.map Kind.written))).map Token.kind
      = kinds ++ [.eof] := by
  rw [map_kind_ofText, String.toList_intercalate, List.map_map]
  exact kindsOf_intercalate h

/-- Some tokens that can be written, among them a string with blanks in it and a character of two
bytes. -/
def strayKinds : List Kind :=
  [.name "f", .opening .paren, .illegal "ä", .string "a 1\n(", .int "12", .bang]

/-- All of them are read back. -/
theorem map_kind_ofText_strayKinds :
    (ofText "f ( ä \"a 1\n(\" 12 !").map Token.kind = strayKinds ++ [.eof] := by
  have hname : IsIdentifier "f" := ⟨'f', [], rfl, by decide, by simp⟩
  have hint : IsDigits "12" := ⟨by decide, List.all_eq_true.1 (by decide)⟩
  have hstray : Kind.IsStray 'ä' := by
    refine ⟨by decide, fun kind hkind => ?_, by decide, by decide, by decide⟩
    have hsymbol : Kind.ofSymbol? 'ä' = some kind := Kind.ofSymbol?_symbol? hkind
    exact absurd hsymbol (by simp [Kind.ofSymbol?])
  have hwritable : ∀ kind ∈ strayKinds, kind.IsWritable := by
    simp [strayKinds, Kind.IsWritable, hname, hint]
    exact ⟨'ä', rfl, hstray⟩
  exact map_kind_ofText_intercalate hwritable

end GraphQuery.Token
