import GraphQuery.Proofs.Places
import GraphQuery.Proofs.Spelling

/-! # Layout

Blanks between tokens do not matter. Where no token is around a place of a text (`Token.IsGap`), any
number of blanks may be put in, and the text is still read as tokens of the same kinds; and since
parsing looks at the kinds of tokens only, the same document is parsed, with the same diagnostics up
to their places (`Parsed.ofText_append_blanks`).

Places are meant as the text is laid out, in bytes from its start, however long the text is. As long
as they fit into thirty-two bits they are those that the tokens tell (`Token.isGap_iff`). -/

namespace GraphQuery

namespace Token

/-! ## The layout of a text -/

/-- Nothing is laid out as no tokens. -/
theorem LaidOut.eq_nil {before : List Char} {lexed : List Token} (h : LaidOut before [] lexed) :
    lexed = [] := by
  generalize hcs : ([] : List Char) = cs at h
  cases h with
  | done => rfl
  | blank => cases hcs
  | token spells more =>
    obtain ⟨hinside, -⟩ := List.append_eq_nil_iff.1 hcs.symm
    exact absurd hinside spells.ne_nil

/-- A blank is laid out as no token. -/
theorem LaidOut.of_isBlank {before cs : List Char} {c : Char} {lexed : List Token}
    (h : LaidOut before (c :: cs) lexed) (hblank : isBlank c) :
    LaidOut (before ++ [c]) cs lexed := by
  generalize htext : c :: cs = text at h
  cases h with
  | done => cases htext
  | blank d hd more =>
    cases htext
    exact more
  | token spells more =>
    obtain ⟨d, ds, hread, hnotBlank, -⟩ := spells.exists_read
    rw [← htext] at hread
    cases hread
    exact absurd hblank hnotBlank

/-- Where there is no blank, a lexeme is laid out as its token. -/
theorem LaidOut.of_not_isBlank {before cs : List Char} {c : Char} {lexed : List Token}
    (h : LaidOut before (c :: cs) lexed) (hblank : ¬ isBlank c) :
    ∃ more, LaidOut (before ++ (Lexeme.read c cs).text) (Lexeme.read c cs).rest more
      ∧ lexed = ⟨(Lexeme.read c cs).kind, ⟨byteLength before,
          byteLength before + byteLength (Lexeme.read c cs).text⟩⟩ :: more := by
  generalize htext : c :: cs = text at h
  cases h with
  | done => cases htext
  | blank d hd more =>
    cases htext
    exact absurd hd hblank
  | @token before inside after kind lexed spells more =>
    obtain ⟨d, ds, hread, -, hlexeme⟩ := spells.exists_read
    rw [← htext] at hread
    cases hread
    rw [hlexeme]
    exact ⟨lexed, more, rfl⟩

/-- **A text is laid out in one way only.** -/
theorem LaidOut.unique {before cs : List Char} {lexed lexed' : List Token}
    (h : LaidOut before cs lexed) (h' : LaidOut before cs lexed') : lexed = lexed' := by
  induction h generalizing lexed' with
  | done before => exact h'.eq_nil.symm
  | blank c isBlank more ih => exact ih (h'.of_isBlank isBlank)
  | @token before inside after kind lexed spells more ih =>
    obtain ⟨c, cs, htext, hblank, hlexeme⟩ := spells.exists_read
    rw [htext] at h'
    obtain ⟨lexed', hmore, rfl⟩ := h'.of_not_isBlank hblank
    rw [hlexeme] at hmore ⊢
    rw [ih hmore]

/-- Every text is laid out as tokens. -/
theorem exists_laidOut (before cs : List Char) : ∃ lexed, LaidOut before cs lexed := by
  -- The induction is along the recursion of the lexer, whose offset does not count here.
  generalize 0 = offset
  induction offset, cs using lexFrom.induct generalizing before with
  | case1 offset => exact ⟨[], .done before⟩
  | case2 offset c cs hblank ih =>
    obtain ⟨lexed, hlaid⟩ := ih (before ++ [c])
    exact ⟨lexed, .blank c hblank hlaid⟩
  | case3 offset c cs hblank lexeme stop ih =>
    obtain ⟨lexed, hlaid⟩ := ih (before ++ lexeme.text)
    have htoken := LaidOut.token (Lexeme.spells_read cs hblank) hlaid
    rw [Lexeme.text_append_rest] at htoken
    exact ⟨_, htoken⟩

/-! ## Gaps -/

/-- Whether a token is a string that is not closed: it has no room for a closing quote. -/
def isOpenString (t : Token) : Bool :=
  match t.kind with
  | .string contents => t.span.length = 1 + byteLength contents.toList
  | _ => false

/-- **A token is clear of a place** that is not strictly inside of it, and not at or after its end
if it is a string that is not closed. -/
def IsClearOf (t : Token) (offset : Nat) : Prop :=
  ¬ (t.span.start < offset ∧ offset < t.span.stop) ∧ (t.isOpenString → offset < t.span.stop)

instance (t : Token) (offset : Nat) : Decidable (t.IsClearOf offset) :=
  inferInstanceAs (Decidable (_ ∧ _))

/-- **A gap** between two parts of a text: every token of the text is clear of it. -/
def IsGap (before after : List Char) : Prop :=
  ∃ lexed, LaidOut [] (before ++ after) lexed ∧ ∀ t ∈ lexed, t.IsClearOf (byteLength before)

/-- Gaps can be told by the tokens that a source text is read as, if their offsets fit into
thirty-two bits. -/
theorem isGap_iff {before after : String}
    (h : (before ++ after).utf8ByteSize < 0x100000000) :
    IsGap before.toList after.toList
      ↔ ∀ t ∈ ofText (before ++ after), t.IsClearOf before.utf8ByteSize := by
  have hmax : byteLength ([] ++ (before ++ after).toList) ≤ Span.maxOffset := by
    rw [List.nil_append, byteLength_toList]
    exact Nat.le_of_lt_succ h
  obtain ⟨lexed, hlex, hlaid⟩ := lexFrom_eq_append hmax
  rw [String.toList_append] at hlaid
  -- The end of input is clear of every place.
  have heof : ∀ place, (⟨.eof, ⟨place, place⟩⟩ : Token).IsClearOf before.utf8ByteSize := by
    intro place
    simp [IsClearOf, isOpenString]
    omega
  rw [ofText, ← byteLength_toList before]
  change lexFrom 0 _ = _ at hlex
  rw [hlex, List.forall_mem_append]
  constructor
  · rintro ⟨lexed', hlaid', hclear⟩
    rw [hlaid'.unique hlaid] at hclear
    exact ⟨hclear, by simpa [byteLength_toList] using heof _⟩
  · rintro ⟨hclear, -⟩
    exact ⟨lexed, hlaid, hclear⟩

/-! ## Blanks in a gap -/

/-- **What is spelled** is spelled in front of other text too, if that goes on with a blank or as
before; only a string that is not closed is not. -/
theorem Kind.Spells.of_head {kind : Kind} {inside after after' : List Char}
    (h : kind.Spells inside after) (hhead : ∀ d ∈ after'.head?, isBlank d ∨ d ∈ after.head?) :
    kind.Spells inside after'
      ∨ after = [] ∧ ∃ cs, kind = .string (String.ofList cs) ∧ inside = '"' :: cs := by
  cases h with
  | punctuator symbol => exact .inl (.punctuator symbol)
  | name start continues maximal =>
    refine .inl (.name start continues fun d hd => ?_)
    rcases hhead d hd with hblank | hsame
    · exact (not_continues_of_isBlank hblank).1
    · exact maximal d hsame
  | int digits maximal =>
    refine .inl (.int digits fun d hd => ?_)
    rcases hhead d hd with hblank | hsame
    · exact (not_continues_of_isBlank hblank).2
    · exact maximal d hsame
  | string contents => exact .inl (.string contents)
  | @openString cs contents => exact .inr ⟨rfl, cs, rfl, rfl⟩
  | illegal noBlank noPunctuator noString noName noInt =>
    exact .inl (.illegal noBlank noPunctuator noString noName noInt)

/-- What a text goes on with after some of it and some blanks. -/
theorem isBlank_or_mem_head? {blanks : List Char} (hblanks : ∀ c ∈ blanks, isBlank c)
    (front after : List Char) :
    ∀ d ∈ (front ++ (blanks ++ after)).head?, isBlank d ∨ d ∈ (front ++ after).head? := by
  intro d hd
  cases front with
  | nil =>
    cases blanks with
    | nil => exact .inr hd
    | cons c blanks =>
      obtain rfl : c = d := by simpa using hd
      exact .inl (hblanks c List.mem_cons_self)
  | cons c front => exact .inr hd

/-- Of two ways to divide a text, the one with the longer front goes on from the other one. -/
theorem exists_append_of_byteLength_le {as bs cs ds : List Char} (h : as ++ bs = cs ++ ds)
    (hle : byteLength as ≤ byteLength cs) : ∃ between, cs = as ++ between ∧ bs = between ++ ds := by
  rcases List.append_eq_append_iff.1 h with hsplit | ⟨excess, rfl, rfl⟩
  · exact hsplit
  · -- What the first front has over the second one is empty.
    have hnone : excess = [] := by
      cases excess with
      | nil => rfl
      | cons c rest =>
        have hpos := Char.utf8Size_pos c
        simp only [byteLength_append, byteLength_cons] at hle
        omega
    subst hnone
    exact ⟨[], by simp, by simp⟩

/-- **Blanks in a gap** change no kind of token. -/
theorem LaidOut.kindsOf_append_blanks {placed cs front blanks after : List Char}
    {lexed : List Token} (h : LaidOut placed cs lexed) (hcs : cs = front ++ after)
    (hclear : ∀ t ∈ lexed, t.IsClearOf (byteLength (placed ++ front)))
    (hblanks : ∀ c ∈ blanks, isBlank c) :
    kindsOf (front ++ (blanks ++ after)) = kindsOf (front ++ after) := by
  induction h generalizing front with
  | done placed =>
    obtain ⟨rfl, rfl⟩ := List.append_eq_nil_iff.1 hcs.symm
    exact kindsOf_append_of_isBlank hblanks []
  | @blank placed cs lexed c hblank more ih =>
    cases front with
    | nil => exact kindsOf_append_of_isBlank hblanks after
    | cons d front =>
      obtain ⟨rfl, rfl⟩ := List.cons.inj hcs
      rw [List.append_cons] at hclear
      rw [List.cons_append, List.cons_append, kindsOf_cons_of_isBlank hblank,
        kindsOf_cons_of_isBlank hblank]
      exact ih rfl hclear
  | @token placed inside rest kind lexed spells more ih =>
    cases front with
    | nil => exact kindsOf_append_of_isBlank hblanks after
    | cons d front =>
      -- The gap comes after the start of the token, and so it comes after its end.
      obtain ⟨haround, hopen⟩ := hclear _ List.mem_cons_self
      have hpos := Char.utf8Size_pos d
      have hle : byteLength inside ≤ byteLength (d :: front) := by
        simp only [byteLength_append, byteLength_cons] at haround ⊢
        omega
      obtain ⟨between, hfront, rfl⟩ := exists_append_of_byteLength_le hcs hle
      rw [hfront] at hclear hopen ⊢
      rcases spells.of_head (isBlank_or_mem_head? hblanks between after) with
        hspells | ⟨hend, contents, rfl, rfl⟩
      · have hlater : ∀ t ∈ lexed, t.IsClearOf (byteLength (placed ++ inside ++ between)) := by
          intro t ht
          rw [List.append_assoc]
          exact hclear t (List.mem_cons_of_mem _ ht)
        rw [List.append_assoc, List.append_assoc, hspells.kindsOf_append, spells.kindsOf_append,
          ih rfl hlater]
      · -- The token is a string that is not closed, and the gap would be at its end.
        obtain ⟨rfl, rfl⟩ := List.append_eq_nil_iff.1 hend
        have hquote : '"'.utf8Size = 1 := rfl
        have hbefore := hopen (by simp [isOpenString, Span.length, hquote])
        simp at hbefore

/-- Blanks in a gap of a source text change no kind of token. -/
theorem map_kind_ofText_append_blanks {before blanks after : String}
    (hgap : IsGap before.toList after.toList) (hblanks : ∀ c ∈ blanks.toList, isBlank c) :
    (ofText (before ++ blanks ++ after)).map Token.kind
      = (ofText (before ++ after)).map Token.kind := by
  obtain ⟨lexed, hlaid, hclear⟩ := hgap
  rw [map_kind_ofText, map_kind_ofText, String.toList_append, String.toList_append,
    String.toList_append, List.append_assoc]
  exact hlaid.kindsOf_append_blanks rfl hclear hblanks

end Token

/-- **Layout does not matter.** Wherever blanks are put into a gap of a source text, the kinds of
its tokens stay the same, and so do the document that is parsed and the diagnostics up to their
places; for what is parsed depends on the kinds of the tokens only, whatever tokens they are. -/
theorem Parsed.ofText_append_blanks {before blanks after : String}
    (hgap : Token.IsGap before.toList after.toList)
    (hblanks : ∀ c ∈ blanks.toList, Token.isBlank c) :
    (ofText (before ++ blanks ++ after)).AgreesUpToPlaces (ofText (before ++ after))
      ∧ (Token.ofText (before ++ blanks ++ after)).map Token.kind
          = (Token.ofText (before ++ after)).map Token.kind
      ∧ ∀ ts ts' : List Token, ts.map Token.kind = ts'.map Token.kind →
          (ofTokens ts).AgreesUpToPlaces (ofTokens ts') := by
  have hkinds := Token.map_kind_ofText_append_blanks hgap hblanks
  exact ⟨agreesUpToPlaces_of_map_kind hkinds, hkinds, fun _ _ => agreesUpToPlaces_of_map_kind⟩

/-- A line feed and a space between an integer and a name, in a text that is malformed and ends
inside a string. -/
theorem Parsed.ofText_append_blanks_openString :
    (ofText ("\x7bf(a:12" ++ "\n " ++ "b:\"x")).AgreesUpToPlaces (ofText ("\x7bf(a:12" ++ "b:\"x"))
      ∧ (Token.ofText ("\x7bf(a:12" ++ "\n " ++ "b:\"x")).map Token.kind
          = (Token.ofText ("\x7bf(a:12" ++ "b:\"x")).map Token.kind
      ∧ ∀ ts ts' : List Token, ts.map Token.kind = ts'.map Token.kind →
          (ofTokens ts).AgreesUpToPlaces (ofTokens ts') := by
  have hgap : Token.IsGap "\x7bf(a:12".toList "b:\"x".toList := by
    rw [Token.isGap_iff (by decide)]
    decide +kernel
  exact ofText_append_blanks hgap (List.all_eq_true.1 (by decide))

end GraphQuery
