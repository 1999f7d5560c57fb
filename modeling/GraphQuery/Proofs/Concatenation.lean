import GraphQuery.Proofs.Derivation.Recognition
import GraphQuery.Proofs.Progress

/-! # Documents in a row

Reading a document keeps nothing in mind from one definition to the next. Where a well-formed
document is followed by **strays**, tokens that start no definition, and these by another document,
well-formed or not, the definitions of both are read, and each stray is reported at its place
(`ofTokens_append_strays_append`). Only the rounds are shared, and no more of them are needed than
there are tokens. -/

namespace GraphQuery

/-- Whether a token starts a definition: an opening curly bracket, or a keyword. -/
def Token.Kind.StartsDefinition (kind : Token.Kind) : Prop :=
  kind = .opening .brace ∨ kind = .name "type"
    ∨ ∃ operation : OperationKind, kind = .name operation.keyword

/-- **A stray token**: it neither starts a definition nor ends the input. -/
def Token.IsStray (t : Token) : Prop := t.kind ≠ .eof ∧ ¬ t.kind.StartsDefinition

namespace Reading

/-! ## Strays -/

/-- A stray is passed, and reported where a definition is expected. -/
theorem definition_stray {t : Token} (h : t.IsStray) (ts : List Token) :
    definition (t :: ts) = ⟨none, [.unexpected .definition t], ts⟩ := by
  obtain ⟨heof, hstart⟩ := h
  have hnext : nextKind (t :: ts) ≠ .eof := heof
  have hskip : skipUnexpected .definition (none : Option Definition) (t :: ts)
      = ⟨none, [.unexpected .definition t], ts⟩ := by
    rw [skipUnexpected, nextToken_cons, dropToken_eq_tail hnext, List.tail_cons]
  -- Every case in which a definition is read contradicts that the token starts none.
  rw [← hskip, definition, nextKind_cons]
  split
  · next hkind => exact absurd (.inl hkind) hstart
  · next keyword hkind =>
    split
    · next operation hoperation =>
      rw [← Derivation.keyword_of_ofKeyword? hoperation] at hkind
      exact absurd (.inr (.inr ⟨operation, hkind⟩)) hstart
    · split
      · next htype =>
        rw [htype] at hkind
        exact absurd (.inr (.inl hkind)) hstart
      · rfl
  · rfl

/-- Strays in a row are passed one in a round, and what follows them is read with the rounds that
are left. -/
theorem definitions_strays_append {strays : List Token} (h : ∀ t ∈ strays, t.IsStray)
    (budget : Nat) (rest : List Token) :
    definitions (strays.length + budget) (strays ++ rest)
      = ⟨(definitions budget rest).value,
          strays.map (.unexpected .definition) ++ (definitions budget rest).diagnostics,
          (definitions budget rest).rest⟩ := by
  induction strays with
  | nil => simp
  | cons t strays ih =>
    have hstray := h t List.mem_cons_self
    have hmore := ih fun s hs => h s (List.mem_cons_of_mem t hs)
    rw [List.length_cons, Nat.add_right_comm, List.cons_append, definitions, nextKind_cons,
      if_neg hstray.1, definition_stray hstray, andThen]
    simp only
    rw [hmore]
    rfl

/-! ## Well-formed documents -/

/-- Where nothing is reported and the input does not end among the tokens, they are those of a
derivation. -/
theorem exists_derivation {ts : List Token} (hends : ∀ t ∈ ts, t.kind ≠ .eof)
    (h : (document ts).diagnostics = []) :
    ∃ d : Derivation.Document, (d.Fits ∧ d.overflow = []) ∧ ts = d.tokens
      ∧ (document ts).value = d.cut := by
  obtain ⟨d, hd, htokens, hend, hvalue⟩ := Derivation.exists_document h
  refine ⟨d, hd, ?_, hvalue⟩
  -- A token that is left would be the end of input.
  cases hrest : (document ts).rest with
  | nil => rw [htokens, hrest, List.append_nil]
  | cons t rest =>
    rw [hrest] at htokens hend
    have ht : t ∈ ts := by
      rw [htokens]
      exact List.mem_append_right _ List.mem_cons_self
    exact absurd hend (hends t ht)

/-- A derivation has at least as many tokens as definitions. -/
theorem length_definitions_le (d : Derivation.Document) :
    d.definitions.length ≤ d.tokens.length := by
  obtain ⟨definitions⟩ := d
  rw [Derivation.Document.tokens]
  induction definitions with
  | nil => exact Nat.le_refl 0
  | cons first definitions ih =>
    have hne : first.tokens ≠ [] := by
      intro h
      have hkind := Derivation.nextKind_definition_ne_eof first []
      rw [h] at hkind
      exact hkind rfl
    have hpos := List.length_pos_iff.2 hne
    rw [List.flatMap_cons, List.length_cons, List.length_append]
    simp only at ih
    omega

/-- A well-formed document and strays after it take one round for each definition and each stray;
what follows them is read with the rounds that are left. -/
theorem definitions_derivation_append {d : Derivation.Document}
    (hfits : ∀ e ∈ d.definitions, e.Fits) (hdeep : d.overflow = []) {strays : List Token}
    (hstrays : ∀ t ∈ strays, t.IsStray) (budget : Nat) (rest : List Token) :
    definitions (d.definitions.length + strays.length + budget) (d.tokens ++ strays ++ rest)
      = ⟨d.cut.definitions ++ (definitions budget rest).value,
          strays.map (.unexpected .definition) ++ (definitions budget rest).diagnostics,
          (definitions budget rest).rest⟩ := by
  have hnone : d.definitions.flatMap Derivation.Definition.overflow = [] := hdeep
  have hwhole : ∀ e ∈ d.definitions, ∀ s ∈ e.overflow, Derivation.SkipsWhole s := by
    intro e he s hs
    rw [List.flatMap_eq_nil_iff.1 hnone e he] at hs
    exact absurd hs List.not_mem_nil
  rw [Nat.add_assoc, List.append_assoc, Derivation.Document.tokens,
    Derivation.definitions_tokens_append hfits hwhole, definitions_strays_append hstrays, hnone]
  rfl

end Reading

/-- **Documents in a row**: a well-formed document, then strays, then any other document. The
definitions of both are read, each stray is reported at its place, and what is wrong with the
second document is reported as if it stood alone. -/
theorem ofTokens_append_strays_append {first strays second : List Token}
    (hends : ∀ t ∈ first, t.kind ≠ .eof) (hvalid : (Parsed.ofTokens first).diagnostics = [])
    (hstrays : ∀ t ∈ strays, t.IsStray)
    (hlen : (first ++ strays ++ second).length ≤ maxItems) :
    Parsed.ofTokens (first ++ strays ++ second)
      = ⟨⟨(Parsed.ofTokens first).document.definitions
            ++ (Parsed.ofTokens second).document.definitions⟩,
          strays.map (Diagnostic.unexpected .definition)
            ++ (Parsed.ofTokens second).diagnostics⟩ := by
  obtain ⟨d, ⟨⟨-, hfits⟩, hdeep⟩, rfl, hvalue⟩ := Reading.exists_derivation hends hvalid
  -- The rounds are shared out: one for each definition, one for each stray, and the others.
  have hcount := Reading.length_definitions_le d
  rw [List.length_append, List.length_append] at hlen
  obtain ⟨spare, hspare⟩ := Nat.exists_eq_add_of_le
    (show d.definitions.length + strays.length ≤ maxItems by omega)
  have hsecond : Reading.definitions spare second = Reading.definitions maxItems second :=
    Reading.definitions_eq_of_length_le (by omega) (by omega)
  have hread := Reading.definitions_derivation_append hfits hdeep hstrays spare second
  rw [← hspare, hsecond, ← hvalue] at hread
  rw [Parsed.ofTokens, Reading.document, rounds_eq, hread]
  rfl

/-- A query, two strays, and a type definition without a name before the end of input. -/
theorem ofTokens_query_strays_type :
    Parsed.ofTokens ([⟨.opening .brace, ⟨0, 1⟩⟩, ⟨.name "a", ⟨1, 2⟩⟩, ⟨.closing .brace, ⟨2, 3⟩⟩]
        ++ [⟨.closing .brace, ⟨3, 4⟩⟩, ⟨.name "on", ⟨5, 7⟩⟩]
        ++ [⟨.name "type", ⟨8, 12⟩⟩, ⟨.eof, ⟨12, 12⟩⟩])
      = ⟨⟨[.operation ⟨.query, none, [], [⟨"a", [], none⟩]⟩]⟩,
          [.unexpected .definition ⟨.closing .brace, ⟨3, 4⟩⟩,
            .unexpected .definition ⟨.name "on", ⟨5, 7⟩⟩,
            .unexpected .typeName ⟨.eof, ⟨12, 12⟩⟩]⟩ := by
  rw [ofTokens_append_strays_append]
  · rfl
  · simp
  · rfl
  · have hkeyword : ∀ operation : OperationKind, "on" ≠ operation.keyword := by
      intro operation
      cases operation <;> decide
    simpa [Token.IsStray, Token.Kind.StartsDefinition] using hkeyword
  · decide

end GraphQuery
