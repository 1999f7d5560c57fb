import GraphQuery.Proofs.Derivation.Overflow
import GraphQuery.Proofs.Derivation.Recognition

/-! # What parsing accepts

Parsing accepts exactly the derivations of the grammar that keep within its two limits, and the
document that it gives is the meaning of the derivation. What nests too deep is replaced and
reported, and nothing else is, exactly if every subtree that nests too deep is one token or one
group: a variable is not, and neither is a type reference with an exclamation mark after it. -/

namespace GraphQuery

/-- The tokens before the first end of input. -/
def beforeEof (ts : List Token) : List Token := ts.takeWhile fun t => !t.isEof

/-- A list of tokens is the ones before the first end of input, and a rest that starts with it. -/
theorem exists_eq_beforeEof_append (ts : List Token) :
    ∃ rest, ts = beforeEof ts ++ rest ∧ nextKind rest = .eof := by
  refine ⟨ts.dropWhile fun t => !t.isEof, List.takeWhile_append_dropWhile.symm, ?_⟩
  induction ts with
  | nil => rfl
  | cons t ts ih =>
    by_cases heof : t.kind = .eof
    · rw [List.dropWhile_cons_of_neg (by simp [Token.isEof, heof])]
      exact heof
    · rwa [List.dropWhile_cons_of_pos (by simp [Token.isEof, heof])]

/-- Tokens among which the input does not end are the ones before its end. -/
theorem beforeEof_append {ts rest : List Token} (hts : ∀ t ∈ ts, t.kind ≠ .eof)
    (hrest : nextKind rest = .eof) : beforeEof (ts ++ rest) = ts := by
  rw [beforeEof, List.takeWhile_append_of_pos (by simpa [Token.isEof] using hts)]
  rcases rest with _ | ⟨t, rest⟩
  · simp
  · have heof : t.kind = .eof := hrest
    simp [Token.isEof, heof]

namespace Derivation

/-! ## Nesting within the limit -/

/-- A literal without subtrees beyond so many levels keeps its meaning. -/
theorem Value.cut_eq_meaning {levels : Nat} {v : Value} (h : v.overflow levels = []) :
    v.cut levels = v.meaning := by
  induction levels generalizing v with
  | zero => simp [overflow] at h
  | succ levels ih =>
    cases v with
    | list g =>
      rw [overflow, List.flatMap_eq_nil_iff] at h
      rw [cut, meaning_list, List.map_congr_left fun v hv => ih (h v hv)]
    | object g =>
      rw [overflow, List.flatMap_eq_nil_iff] at h
      rw [cut, meaning_object, List.map_congr_left fun l hl => by rw [ih (h l hl)]]
    | _ => rw [cut] <;> simp

/-- A selection set without subtrees beyond so many levels keeps its meaning. -/
theorem Selection.cut_eq_meaning {levels : Nat} {s : Selection} (h : s.overflow levels = []) :
    s.cut levels = s.items.map Field.meaning := by
  induction levels generalizing s with
  | zero => simp [overflow] at h
  | succ levels ih =>
    rw [overflow, List.flatMap_eq_nil_iff] at h
    rw [cut]
    refine List.map_congr_left fun f hf => ?_
    obtain ⟨harguments, hselection⟩ := List.append_eq_nil_iff.1 (h f hf)
    rw [List.flatMap_eq_nil_iff] at harguments
    rw [Field.meaning_eq, List.map_congr_left fun l hl => by
      rw [Value.cut_eq_meaning (harguments l hl)]]
    cases hs : f.selection with
    | none => rfl
    | some inner =>
      rw [hs] at hselection
      rw [Option.map_some, Option.map_some, ih hselection]

/-- A type reference without subtrees beyond so many levels keeps its meaning. -/
theorem TypeTree.cut_eq_meaning {levels : Nat} {t : TypeTree} (h : t.overflow levels = []) :
    t.cut levels = some t.meaning := by
  induction levels generalizing t with
  | zero => simp [overflow] at h
  | succ levels ih =>
    cases t with
    | named place name mark => rfl
    | list opening element closing mark =>
      rw [overflow] at h
      rw [cut, ih h, meaning]

/-- A declared variable whose type keeps within the limit keeps its meaning. -/
theorem Variable.cut_eq_meaning {v : Variable} (h : v.overflow = []) : v.cut = v.meaning := by
  obtain ⟨dollar, place, name, _ | ⟨colon, type⟩⟩ := v
  · rfl
  · show (⟨name, type.cut maxNesting⟩ : VariableDefinition) = ⟨name, some type.meaning⟩
    rw [TypeTree.cut_eq_meaning h]

/-- A definition that keeps within the limit keeps its meaning. -/
theorem Definition.cut_eq_meaning {d : Definition} (h : d.overflow = []) : d.cut = d.meaning := by
  cases d with
  | anonymous selection => rw [cut, meaning, Selection.cut_eq_meaning h]
  | operation kind keyword name declared selection =>
    obtain ⟨hdeclared, hselection⟩ := List.append_eq_nil_iff.1 h
    rw [List.flatMap_eq_nil_iff] at hdeclared
    rw [cut, meaning, Selection.cut_eq_meaning hselection,
      List.map_congr_left fun v hv => Variable.cut_eq_meaning (hdeclared v hv)]
  | typeDefinition keyword place name fields => rfl

/-- **A document that keeps within the limit of nesting keeps its meaning.** -/
theorem Document.cut_eq_meaning {d : Document} (h : d.overflow = []) : d.cut = d.meaning := by
  rw [overflow, List.flatMap_eq_nil_iff] at h
  rw [cut, meaning, List.map_congr_left fun e he => Definition.cut_eq_meaning (h e he)]

end Derivation

/-! ## Acceptance -/

/-- **Parsing accepts exactly its grammar**: it gives a document and no diagnostics if and only if
the tokens before the end of input are those of a derivation of that document, one in which every
construct fits and nothing nests too deep. -/
theorem ofTokens_eq_iff_exists_derivation (ts : List Token) (document : Document) :
    Parsed.ofTokens ts = ⟨document, []⟩
      ↔ ∃ d : Derivation.Document,
        d.Fits ∧ d.overflow = [] ∧ d.tokens = beforeEof ts ∧ d.meaning = document := by
  constructor
  · -- Soundness: the derivation is recognised, and its tokens reach up to the end of input.
    intro h
    obtain ⟨hvalue, hdiagnostics⟩ := Parsed.mk.inj h
    obtain ⟨d, ⟨hfits, hdeep⟩, htokens, hend, hcut⟩ := Derivation.exists_document hdiagnostics
    refine ⟨d, hfits, hdeep, ?_, ?_⟩
    · rw [htokens, beforeEof_append (fun t ht => Derivation.Document.kind_ne_eof ht) hend]
    · rw [← d.cut_eq_meaning hdeep, ← hcut, hvalue]
  · -- Completeness: the derivation is read back, and it is not cut anywhere.
    rintro ⟨d, hfits, hdeep, htokens, rfl⟩
    obtain ⟨rest, hts, hrest⟩ := exists_eq_beforeEof_append ts
    rw [hts, ← htokens, Parsed.ofTokens,
      Derivation.document_tokens hfits (by simp [hdeep]) hrest, d.cut_eq_meaning hdeep, hdeep]
    rfl

/-- Tokens that are parsed without a diagnostic are derived as the document that is parsed. -/
theorem Parsed.exists_derivation {ts : List Token} (h : (ofTokens ts).diagnostics = []) :
    ∃ d : Derivation.Document, d.tokens = beforeEof ts ∧ d.meaning = (ofTokens ts).document := by
  obtain ⟨d, ⟨-, hdeep⟩, htokens, hend, hcut⟩ := Derivation.exists_document h
  refine ⟨d, ?_, (d.cut_eq_meaning hdeep).symm.trans hcut.symm⟩
  rw [htokens, beforeEof_append (fun t ht => Derivation.Document.kind_ne_eof ht) hend]

/-! ## Nesting beyond the limit -/

/-- **Parsing replaces what nests too deep, and does nothing else,** if and only if every subtree
that nests too deep is skipped as a whole. -/
theorem ofTokens_eq_cut_iff_skipsWhole {ts : List Token} {d : Derivation.Document}
    (hfits : d.Fits) (htokens : d.tokens = beforeEof ts) :
    Parsed.ofTokens ts = ⟨d.cut, d.overflow.map Derivation.Subtree.fault⟩
      ↔ ∀ s ∈ d.overflow, Derivation.SkipsWhole s := by
  obtain ⟨rest, hts, hrest⟩ := exists_eq_beforeEof_append ts
  rw [hts, ← htokens, Parsed.ofTokens]
  constructor
  · -- The document is not needed: the diagnostics tell already.
    intro h
    exact Derivation.skipsWhole_of_diagnostics_document hfits hrest (Parsed.mk.inj h).2
  · intro hwhole
    rw [Derivation.document_tokens hfits hwhole hrest]

namespace Derivation

/-- A selection set of one field, which is in as many more selection sets, one in the other. -/
def nestedSelection : Nat → Field → Selection
  | 0, f => ⟨⟨0, 0⟩, [.item f], ⟨0, 0⟩⟩
  | levels + 1, f => ⟨⟨0, 0⟩, [.item ⟨⟨0, 0⟩, "f", none, some (nestedSelection levels f)⟩], ⟨0, 0⟩⟩

/-- Selection sets around a field that fits do fit. -/
theorem nestedSelection_fits {f : Field} (hf : f.Fits) (levels : Nat) :
    (nestedSelection levels f).Fits ∧ ∀ g ∈ (nestedSelection levels f).items, g.Fits := by
  have hone : 1 < maxItems := by decide
  induction levels with
  | zero =>
    refine ⟨hone, fun g hg => ?_⟩
    rwa [List.mem_singleton.1 hg]
  | succ levels ih =>
    refine ⟨hone, fun g hg => ?_⟩
    rw [List.mem_singleton.1 hg, Field.fits_iff]
    refine ⟨by simp, ?_⟩
    rintro s ⟨⟩
    exact ih

/-- What nests too deep in the innermost selection set are the arguments of its field. -/
theorem overflow_nestedSelection {f : Field} (hf : f.selection = none) (levels : Nat) :
    Selection.overflow (levels + 1) (nestedSelection levels f)
      = f.argumentItems.map fun l => .value l.value := by
  induction levels with
  | zero =>
    rw [Selection.overflow]
    simp [nestedSelection, Group.items, hf, Value.overflow, List.map_eq_flatMap]
  | succ levels ih =>
    rw [Selection.overflow]
    simp [nestedSelection, Group.items, Field.argumentItems, ih]

/-- **A variable just beyond the limit**: the argument of a field in the innermost of as many
selection sets as may nest. -/
def deepVariable : Document :=
  ⟨[.anonymous (nestedSelection 63 ⟨⟨0, 0⟩, "f",
    some ⟨⟨0, 0⟩, [.item ⟨⟨0, 0⟩, "a", ⟨0, 0⟩, .variableRef ⟨0, 0⟩ ⟨0, 0⟩ "x"⟩], ⟨0, 0⟩⟩, none⟩)]⟩

end Derivation

/-- A variable just beyond the limit is not skipped as a whole. -/
theorem ofTokens_deepVariable_ne : Parsed.ofTokens Derivation.deepVariable.tokens
    ≠ ⟨Derivation.deepVariable.cut,
        Derivation.deepVariable.overflow.map Derivation.Subtree.fault⟩ := by
  have hfits : Derivation.deepVariable.Fits := by
    refine ⟨by decide, fun d hd => ?_⟩
    rw [List.mem_singleton.1 hd]
    refine Derivation.nestedSelection_fits ((Derivation.Field.fits_iff _).2 ?_) 63
    simp [Derivation.Group.Fits, Derivation.Group.items, Derivation.Value.Fits, maxItems]
  have htokens : Derivation.deepVariable.tokens = beforeEof Derivation.deepVariable.tokens := by
    have hend : beforeEof (Derivation.deepVariable.tokens ++ []) = _ :=
      beforeEof_append (fun t ht => Derivation.Document.kind_ne_eof ht) rfl
    rw [List.append_nil] at hend
    exact hend.symm
  have hoverflow : Derivation.deepVariable.overflow
      = [.value (.variableRef ⟨0, 0⟩ ⟨0, 0⟩ "x")] := by
    rw [Derivation.Document.overflow, Derivation.deepVariable, List.flatMap_singleton]
    exact Derivation.overflow_nestedSelection rfl 63
  rw [Ne, ofTokens_eq_cut_iff_skipsWhole hfits htokens, hoverflow]
  intro hwhole
  have hunit := (hwhole _ List.mem_cons_self).1
  simp [Derivation.Subtree.isUnit] at hunit

end GraphQuery
