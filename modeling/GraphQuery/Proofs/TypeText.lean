import GraphQuery.Proofs.Acceptance
import GraphQuery.Proofs.Layout
import GraphQuery.Proofs.WellFormed
import Mathlib.Data.List.Forall2

/-! # The texts of type references

A type reference is written as the texts of its tokens, one after the other
(`TypeTree.text_meaning`). So the text of a type reference is read back as that type reference, at
any depth that reading goes to; and a variable that is declared without a fault has a type whose
text is that of the tokens it was read from. -/

namespace GraphQuery

/-- The variables that a document declares, operation by operation. -/
def Document.declared (document : Document) : List VariableDefinition :=
  document.operations.flatMap Operation.declared

/-- The source text of a query that declares one variable of a given type. -/
def TypeReference.queryText (type : TypeReference) : String :=
  "query ($v: " ++ type.text ++ ") \x7b f \x7d"

namespace Derivation

/-- The text of some tokens, one after the other. -/
def textOf (ts : List Token) : String := String.join (ts.map fun t => t.kind.literal)

@[simp] theorem textOf_nil : textOf [] = "" := rfl

@[simp] theorem textOf_cons (t : Token) (ts : List Token) :
    textOf (t :: ts) = t.kind.literal ++ textOf ts := String.join_cons

@[simp] theorem textOf_append (as bs : List Token) :
    textOf (as ++ bs) = textOf as ++ textOf bs := by
  rw [textOf, List.map_append, String.join_append]
  rfl

/-! ## Writing type references -/

namespace TypeTree

variable {t : TypeTree} {levels : Nat}

/-- An exclamation mark is written as what it means. -/
theorem mark_nullability (mark : Option Span) :
    TypeReference.mark (nullability mark) = textOf (markTokens mark) := by
  cases mark <;> rfl

/-- **A type reference is written as the texts of its tokens.** -/
theorem text_meaning (t : TypeTree) : t.meaning.text = textOf t.tokens := by
  induction t with
  | named place name mark =>
    rw [meaning, TypeReference.text, tokens, textOf_cons, mark_nullability]
    rfl
  | list opening element closing mark ih =>
    rw [meaning, TypeReference.text, tokens, textOf_cons, textOf_append, textOf_cons, ih,
      mark_nullability, String.append_assoc, String.append_assoc]
    rfl

/-- What is no deeper than so many levels has nothing beyond them. -/
theorem overflow_eq_nil (h : t.meaning.depth ≤ levels) : t.overflow levels = [] := by
  induction t generalizing levels with
  | named place name mark =>
    cases levels with
    | zero => simp [meaning, TypeReference.depth] at h
    | succ levels => rfl
  | list opening element closing mark ih =>
    cases levels with
    | zero => simp [meaning, TypeReference.depth] at h
    | succ levels => exact ih (Nat.le_of_succ_le_succ h)

/-- **A type reference without faults is derived** by some tree. -/
theorem exists_meaning_eq : (type : TypeReference) → type.faults = 0 →
    ∃ t : TypeTree, t.meaning = type
  | .named name .nonNull, _ => ⟨named ⟨0, 0⟩ name (some ⟨0, 0⟩), rfl⟩
  | .named name .nullable, _ => ⟨named ⟨0, 0⟩ name none, rfl⟩
  | .list none _, h => absurd h (Nat.one_ne_zero)
  | .list (some element) mark, h => by
    obtain ⟨t, rfl⟩ := exists_meaning_eq element h
    cases mark with
    | nonNull => exact ⟨list ⟨0, 0⟩ t ⟨0, 0⟩ (some ⟨0, 0⟩), rfl⟩
    | nullable => exact ⟨list ⟨0, 0⟩ t ⟨0, 0⟩ none, rfl⟩

end TypeTree

end Derivation

namespace Token

open GraphQuery.Derivation

/-! ## Reading type references -/

/-- The symbol of a punctuator is read, and then what comes after it. -/
theorem kindsOf_symbol (kind : Kind) (c : Char) (h : kind.symbol? = some c) (cs : List Char) :
    kindsOf (c :: cs) = kind :: kindsOf cs :=
  Kind.Spells.kindsOf_append (.punctuator h)

/-- An exclamation mark is read if it is there. -/
theorem kindsOf_mark (mark : Option Span) (after : List Char) :
    kindsOf ((textOf (TypeTree.markTokens mark)).toList ++ after)
      = (TypeTree.markTokens mark).map Token.kind ++ kindsOf after := by
  cases mark with
  | none => rfl
  | some place =>
    have hmark : kindsOf ('!' :: after) = .bang :: kindsOf after :=
      kindsOf_symbol .bang '!' rfl after
    simpa [TypeTree.markTokens, Kind.literal, Kind.symbol?] using hmark

/-- No name goes on with an exclamation mark. -/
theorem not_isNameContinue_of_mark (mark : Option Span) {after : List Char}
    (hafter : ∀ d ∈ after.head?, ¬ isNameContinue d) :
    ∀ d ∈ ((textOf (TypeTree.markTokens mark)).toList ++ after).head?, ¬ isNameContinue d := by
  cases mark with
  | none => exact hafter
  | some place =>
    have hmark : ¬ isNameContinue '!' := by decide
    simpa [TypeTree.markTokens, Kind.literal, Kind.symbol?] using hmark

/-- **The text of a type reference** is read as its tokens, in front of anything that goes on with
no name. -/
theorem kindsOf_typeTree {t : TypeTree}
    (hname : ∀ name ∈ t.meaning.innermostName?, IsIdentifier name)
    {after : List Char} (hafter : ∀ d ∈ after.head?, ¬ isNameContinue d) :
    kindsOf ((textOf t.tokens).toList ++ after) = t.tokens.map Token.kind ++ kindsOf after := by
  induction t generalizing after with
  | named place name mark =>
    have hspells : (Kind.name name).Spells name.toList
        ((textOf (TypeTree.markTokens mark)).toList ++ after) :=
      Kind.spells_name (hname name rfl) (not_isNameContinue_of_mark mark hafter)
    rw [TypeTree.tokens, textOf_cons, String.toList_append, List.append_assoc]
    exact (hspells.kindsOf_append).trans (congrArg _ (kindsOf_mark mark after))
  | list opening element closing mark ih =>
    -- The closing bracket ends the name of the element, and the mark is read after it.
    have hclosing : ∀ d ∈ (']' :: ((textOf (TypeTree.markTokens mark)).toList ++ after)).head?,
        ¬ isNameContinue d := by
      rintro d ⟨⟩
      decide
    have helement := ih hname hclosing
    rw [kindsOf_symbol (.closing .bracket) ']' rfl, kindsOf_mark] at helement
    rw [TypeTree.tokens, textOf_cons, textOf_append, textOf_cons]
    simp only [String.toList_append, List.append_assoc]
    refine (kindsOf_symbol (.opening .bracket) '[' rfl _).trans ?_
    rw [List.map_cons, List.map_append, List.map_cons, List.cons_append, List.append_assoc]
    exact congrArg _ helement

end Token

namespace Derivation

open Token

/-! ## A variable of a given type -/

/-- The derivation of a query that declares one variable of a given type. -/
def queryOf (t : TypeTree) : Derivation.Document :=
  ⟨[.operation .query ⟨0, 0⟩ none
    (some ⟨⟨0, 0⟩, [.item ⟨⟨0, 0⟩, ⟨0, 0⟩, "v", some (⟨0, 0⟩, t)⟩], ⟨0, 0⟩⟩)
    ⟨⟨0, 0⟩, [.item ⟨⟨0, 0⟩, "f", none, none⟩], ⟨0, 0⟩⟩]⟩

/-- Nothing in such a query is too long. -/
theorem queryOf_fits (t : TypeTree) : (queryOf t).Fits := by
  have hone : 1 < maxItems := by decide
  refine ⟨Nat.le_of_lt hone, fun d hd => ?_⟩
  obtain rfl := List.mem_singleton.1 hd
  refine ⟨?_, hone, fun f hf => ?_⟩
  · rintro g ⟨⟩
    exact hone
  · obtain rfl := List.mem_singleton.1 hf
    exact (Field.fits_iff _).2 ⟨nofun, nofun⟩

/-- Such a query declares one variable and selects one field. -/
theorem meaning_queryOf (t : TypeTree) : (queryOf t).meaning
    = ⟨[.operation ⟨.query, none, [⟨"v", some t.meaning⟩], [⟨"f", [], none⟩]⟩]⟩ := by
  simp [queryOf, Document.meaning, Definition.meaning, Group.items, Variable.meaning,
    Field.meaning_eq, Field.argumentItems]

/-- What nests too deep in such a query is in the type. -/
theorem overflow_queryOf (t : TypeTree) : (queryOf t).overflow = t.overflow maxNesting := by
  have hselection : ∀ levels, Selection.overflow (levels + 1)
      ⟨⟨0, 0⟩, [.item ⟨⟨0, 0⟩, "f", none, none⟩], ⟨0, 0⟩⟩ = [] := fun _ => rfl
  simp [queryOf, Document.overflow, Definition.overflow, Group.items, Variable.overflow,
    maxNesting, hselection]

/-- The text of such a query is read up to the type. -/
theorem kindsOf_beforeType (cs : List Char) : kindsOf ("query ($v: ".toList ++ cs)
    = .name "query" :: .opening .paren :: .dollar :: .name "v" :: .colon :: kindsOf cs := by
  have hspace : isBlank ' ' := by decide
  have hquery : (Kind.name "query").Spells "query".toList
      (' ' :: '(' :: '$' :: ("v".toList ++ ':' :: ' ' :: cs)) :=
    Kind.spells_name ⟨'q', ['u', 'e', 'r', 'y'], rfl, by decide, by simp⟩ (by simp; decide)
  have hv : (Kind.name "v").Spells "v".toList (':' :: ' ' :: cs) :=
    Kind.spells_name ⟨'v', [], rfl, by decide, by simp⟩ (by simp; decide)
  have htext : "query ($v: ".toList ++ cs
      = "query".toList ++ ' ' :: '(' :: '$' :: ("v".toList ++ ':' :: ' ' :: cs) := by
    simp
  rw [htext, hquery.kindsOf_append, kindsOf_cons_of_isBlank hspace,
    kindsOf_symbol (.opening .paren) '(' rfl,
    kindsOf_symbol .dollar '$' rfl, hv.kindsOf_append,
    kindsOf_symbol .colon ':' rfl, kindsOf_cons_of_isBlank hspace]

/-- **The text of such a query** is read as the tokens of its derivation. -/
theorem kindsOf_queryText {t : TypeTree}
    (hname : ∀ name ∈ t.meaning.innermostName?, IsIdentifier name) :
    kindsOf t.meaning.queryText.toList = (queryOf t).tokens.map Token.kind ++ [.eof] := by
  have hclosing : ∀ d ∈ (") \x7b f \x7d".toList).head?, ¬ isNameContinue d := by
    rintro d ⟨⟩
    decide
  have hafter : kindsOf ") \x7b f \x7d".toList
      = [.closing .paren, .opening .brace, .name "f", .closing .brace, .eof] := by
    decide +kernel
  rw [TypeReference.queryText, t.text_meaning, String.toList_append, String.toList_append,
    List.append_assoc, kindsOf_beforeType, kindsOf_typeTree hname hclosing, hafter]
  simp [queryOf, Document.tokens, Definition.tokens, Group.tokens, Variable.tokens, Field.tokens,
    Round.tokens, OperationKind.keyword]

/-! ## The tokens of declared variables -/

/-- The tokens of the type of a declared variable, none if it has no type. -/
def Variable.typeTokens (v : Variable) : List Token :=
  v.type.elim [] fun (_, type) => type.tokens

/-- The variables that a definition declares. -/
def Definition.declared : Definition → List Variable
  | operation _ _ _ declared _ => declared.elim [] Group.items
  | anonymous _ | typeDefinition _ _ _ _ => []

/-- The variables that a document declares. -/
def Document.declared (d : Document) : List Variable := d.definitions.flatMap Definition.declared

/-- What a document declares is what is declared in its derivation. -/
theorem Document.declared_meaning (d : Document) :
    d.meaning.declared = d.declared.map Variable.meaning := by
  obtain ⟨definitions⟩ := d
  induction definitions with
  | nil => rfl
  | cons definition definitions ih =>
    cases definition with
    | operation kind keyword name declared selection =>
      exact (congrArg _ ih).trans List.map_append.symm
    | _ => exact ih

/-- A declared variable is a stretch of the tokens of its document. -/
theorem Document.declared_part {d : Document} {v : Variable} (hv : v ∈ d.declared) :
    v.tokens <:+: d.tokens := by
  obtain ⟨definition, hdefinition, hv⟩ := List.mem_flatMap.1 hv
  have houter : definition.tokens <:+: d.tokens := infix_flatMap _ hdefinition
  cases definition with
  | operation kind keyword name declared selection =>
    cases declared with
    | none => simp [Definition.declared] at hv
    | some g =>
      have hgroup : g.tokens Variable.tokens
          <:+: (Definition.operation kind keyword name (some g) selection).tokens :=
        (List.prefix_append _ _).isInfix.trans
          ((List.suffix_append _ _).trans (List.suffix_cons _ _)).isInfix
      exact (g.item_part _ hv).trans (hgroup.trans houter)
  | _ => simp [Definition.declared] at hv

/-- **A declared variable is written** in some tokens: they have a stretch that derives it, and its
type has the text of the tokens that derive the type. -/
structure IsWrittenIn (ts : List Token) (v : VariableDefinition) (written : Variable) : Prop where
  /-- It is what its derivation means. -/
  meaning_eq : written.meaning = v
  /-- The tokens of the derivation are a stretch. -/
  part : written.tokens <:+: ts
  /-- The type is written as its tokens. -/
  text_eq : ∀ type ∈ v.type, type.text = textOf written.typeTokens

/-- What is declared in a derivation is written in its tokens. -/
theorem Document.isWrittenIn_declared (d : Document) :
    List.Forall₂ (IsWrittenIn d.tokens) d.meaning.declared d.declared := by
  rw [d.declared_meaning, List.forall₂_map_left_iff, List.forall₂_same]
  intro v hv
  refine ⟨rfl, declared_part hv, ?_⟩
  obtain ⟨dollar, place, name, _ | ⟨colon, t⟩⟩ := v
  · rintro type ⟨⟩
  · rintro type ⟨⟩
    exact t.text_meaning

end Derivation

/-! ## Round trips -/

/-- **The text of a type is read back** as that type, where a variable is declared with it. -/
theorem Parsed.ofText_queryText {type : TypeReference}
    (hname : ∀ name ∈ type.innermostName?, IsIdentifier name) (hfaults : type.faults = 0)
    (hdepth : type.depth ≤ maxNesting) :
    Parsed.ofText type.queryText
      = ⟨⟨[.operation ⟨.query, none, [⟨"v", some type⟩], [⟨"f", [], none⟩]⟩]⟩, []⟩ := by
  obtain ⟨t, rfl⟩ := Derivation.TypeTree.exists_meaning_eq type hfaults
  -- The tokens of the text are those of a derivation, up to their places.
  let ts : List Token := (Derivation.queryOf t).tokens ++ [Token.unplacedEof]
  have hkinds : (Token.ofText t.meaning.queryText).map Token.kind
      = ts.map Token.kind := by
    rw [Token.map_kind_ofText, Derivation.kindsOf_queryText hname, List.map_append]
    rfl
  have hdeep : (Derivation.queryOf t).overflow = [] := by
    rw [Derivation.overflow_queryOf, Derivation.TypeTree.overflow_eq_nil hdepth]
  have hread : Parsed.ofTokens ts = ⟨(Derivation.queryOf t).meaning, []⟩ := by
    rw [Parsed.ofTokens, Derivation.document_tokens (Derivation.queryOf_fits t)
      (by simp [hdeep]) rfl, (Derivation.queryOf t).cut_eq_meaning hdeep, hdeep]
    rfl
  rw [Derivation.meaning_queryOf] at hread
  obtain ⟨hdocument, hdiagnostics⟩ := Parsed.agreesUpToPlaces_of_map_kind hkinds
  rw [hread] at hdocument hdiagnostics
  have hnone : (Parsed.ofTokens (Token.ofText t.meaning.queryText)).diagnostics = [] :=
    List.map_eq_nil_iff.1 hdiagnostics
  exact congrArg₂ Parsed.mk hdocument hnone

/-- Where nothing is reported, the declared variables are written in the tokens that were read. -/
theorem Parsed.exists_isWrittenIn {ts : List Token} (h : (ofTokens ts).diagnostics = []) :
    ∃ d : Derivation.Document, d.tokens = beforeEof ts ∧ d.meaning = (ofTokens ts).document
      ∧ List.Forall₂ (Derivation.IsWrittenIn (beforeEof ts)) (ofTokens ts).document.declared
          d.declared := by
  obtain ⟨d, hbefore, hmeaning⟩ := exists_derivation h
  refine ⟨d, hbefore, hmeaning, ?_⟩
  rw [← hbefore, ← hmeaning]
  exact d.isWrittenIn_declared

/-- **Type references round-trip.** The text of a type reference of well-formed names and lists, no
deeper than types may nest, is read back as that type reference, in a query that declares one
variable with it. And in a document that is parsed without a diagnostic, the type of each declared
variable has the text of the tokens that it was read from. -/
theorem Parsed.types_roundTrip :
    (∀ type : TypeReference, (∀ name ∈ type.innermostName?, IsIdentifier name) → type.faults = 0 →
      type.depth ≤ maxNesting →
      ofText type.queryText
        = ⟨⟨[.operation ⟨.query, none, [⟨"v", some type⟩], [⟨"f", [], none⟩]⟩]⟩, []⟩)
      ∧ ∀ ts : List Token, (ofTokens ts).diagnostics = [] →
        ∃ d : Derivation.Document, d.tokens = beforeEof ts ∧ d.meaning = (ofTokens ts).document
          ∧ List.Forall₂ (Derivation.IsWrittenIn (beforeEof ts)) (ofTokens ts).document.declared
              d.declared :=
  ⟨fun _ hname hfaults hdepth => ofText_queryText hname hfaults hdepth,
    fun _ h => exists_isWrittenIn h⟩

/-- A type that nests as deep as types may: lists that are never null, around a name. -/
def deepType : TypeReference :=
  Nat.repeat (fun element => .list (some element) .nonNull) 63 (.named "Int" .nullable)

/-- The deepest type is read back, and it is written in the tokens that it is read from. -/
theorem Parsed.types_roundTrip_deepType :
    ofText deepType.queryText
        = ⟨⟨[.operation ⟨.query, none, [⟨"v", some deepType⟩], [⟨"f", [], none⟩]⟩]⟩, []⟩
      ∧ ∃ d : Derivation.Document, d.tokens = beforeEof (Token.ofText deepType.queryText)
        ∧ d.meaning = (ofText deepType.queryText).document
        ∧ List.Forall₂ (Derivation.IsWrittenIn (beforeEof (Token.ofText deepType.queryText)))
            (ofText deepType.queryText).document.declared d.declared := by
  have hname : ∀ name ∈ deepType.innermostName?, IsIdentifier name := by
    rintro name ⟨⟩
    exact ⟨'I', ['n', 't'], rfl, by decide, by simp⟩
  have hread := types_roundTrip.1 deepType hname rfl (by decide)
  exact ⟨hread, types_roundTrip.2 _ (congrArg Parsed.diagnostics hread)⟩

end GraphQuery
