import GraphQuery.Parse

/-! # Reading without places

What is read from tokens, and what is reported about them, depends on their kinds only. A reader
**ignores places** if forgetting the places of the tokens before it reads does the same as
forgetting the places of the diagnostics afterwards. Readers that ignore places may be put one
after the other, so that there is one short lemma for each of them; in all, tokens of the same kinds
are parsed to the same document, with the same diagnostics up to their places
(`Parsed.agreesUpToPlaces_of_map_kind`). -/

namespace GraphQuery

/-! ## Forgetting places -/

/-- A token without its place. -/
def Token.unplaced (t : Token) : Token := { t with span := ⟨0, 0⟩ }

/-- A diagnostic without its place. -/
def Diagnostic.unplaced (d : Diagnostic) : Diagnostic := { d with span := ⟨0, 0⟩ }

/-- Tokens of the same kinds are the same without their places. -/
theorem map_unplaced_eq_of_map_kind {ts ts' : List Token}
    (h : ts.map Token.kind = ts'.map Token.kind) :
    ts.map Token.unplaced = ts'.map Token.unplaced := by
  have hkinds : ∀ ts : List Token,
      ts.map Token.unplaced = (ts.map Token.kind).map fun kind => ⟨kind, ⟨0, 0⟩⟩ := by
    intro ts
    rw [List.map_map]
    rfl
  rw [hkinds, hkinds, h]

@[simp] theorem nextToken_map_unplaced (ts : List Token) :
    nextToken (ts.map Token.unplaced) = (nextToken ts).unplaced := by
  cases ts <;> rfl

@[simp] theorem nextKind_map_unplaced (ts : List Token) :
    nextKind (ts.map Token.unplaced) = nextKind ts := by
  cases ts <;> rfl

@[simp] theorem tail_map_unplaced (ts : List Token) :
    (ts.map Token.unplaced).tail = ts.tail.map Token.unplaced := by
  cases ts <;> rfl

@[simp] theorem dropToken_map_unplaced (ts : List Token) :
    dropToken (ts.map Token.unplaced) = (dropToken ts).map Token.unplaced := by
  rw [dropToken, dropToken, nextKind_map_unplaced]
  split
  · rfl
  · exact tail_map_unplaced ts

namespace Reading

variable {α β : Type} {reader other : List Token → Reading α}

/-- A reading without the places of its diagnostics and of the tokens left. -/
def unplaced (r : Reading α) : Reading α :=
  ⟨r.value, r.diagnostics.map Diagnostic.unplaced, r.rest.map Token.unplaced⟩

/-- **A reader ignores places** if it does the same for tokens without their places. -/
def IgnoresPlaces (reader : List Token → Reading α) : Prop :=
  ∀ ts, reader (ts.map Token.unplaced) = (reader ts).unplaced

namespace IgnoresPlaces

/-- Changing the value ignores places. -/
theorem map (h : IgnoresPlaces reader) (f : α → β) : IgnoresPlaces fun ts => (reader ts).map f :=
  fun ts => congrArg (Reading.map f) (h ts)

/-- Reading on ignores places if both readers do. -/
theorem andThen {f : α → List Token → Reading β} (h : IgnoresPlaces reader)
    (hf : ∀ value, IgnoresPlaces (f value)) : IgnoresPlaces fun ts => (reader ts).andThen f := by
  intro ts
  have hnext := hf (reader ts).value (reader ts).rest
  show (reader (ts.map Token.unplaced)).andThen f = _
  rw [h ts]
  simp [Reading.andThen, unplaced, hnext]

/-- Passing the next token ignores places. -/
theorem tail (h : IgnoresPlaces reader) : IgnoresPlaces fun ts => reader ts.tail := by
  intro ts
  show reader (ts.map Token.unplaced).tail = _
  rw [tail_map_unplaced, h]

/-- A reader that leaves everything ignores places. -/
theorem leave (value : α) : IgnoresPlaces fun ts => ⟨value, [], ts⟩ := fun _ => rfl

/-- A reader that records something about the next token ignores places if the diagnostic does. -/
theorem report (diagnostic : Token → Diagnostic)
    (h : ∀ t : Token, diagnostic t.unplaced = (diagnostic t).unplaced) (value : α) :
    IgnoresPlaces fun ts => ⟨value, [diagnostic (nextToken ts)], ts⟩ := by
  intro ts
  show (⟨value, [diagnostic (nextToken (ts.map _))], _⟩ : Reading α) = _
  rw [nextToken_map_unplaced, h]
  rfl

/-- A choice by the kind of the next token ignores places if both readers do. -/
theorem ite {k : Token.Kind} (h : IgnoresPlaces reader) (hother : IgnoresPlaces other) :
    IgnoresPlaces fun ts => if nextKind ts = k then reader ts else other ts := by
  intro ts
  show (if nextKind (ts.map Token.unplaced) = k then _ else _)
    = (if nextKind ts = k then reader ts else other ts).unplaced
  rw [nextKind_map_unplaced]
  by_cases hkind : nextKind ts = k
  · rw [if_pos hkind, if_pos hkind]
    exact h ts
  · rw [if_neg hkind, if_neg hkind]
    exact hother ts

end IgnoresPlaces

open IgnoresPlaces

/-! ## Recovery -/

theorem ignoresPlaces_unexpected (expectation : Expectation) (value : α) :
    IgnoresPlaces (unexpected expectation value) :=
  report (Diagnostic.unexpected expectation) (fun _ => rfl) value

theorem ignoresPlaces_skipUnexpected (expectation : Expectation) (value : α) :
    IgnoresPlaces (skipUnexpected expectation value) := by
  intro ts
  rw [skipUnexpected, nextToken_map_unplaced, dropToken_map_unplaced]
  rfl

theorem ignoresPlaces_close (construct : Construct) : IgnoresPlaces (close construct) := by
  intro ts
  unfold close
  rw [nextKind_map_unplaced]
  split
  · exact report (Diagnostic.unclosed construct) (fun _ => rfl) () ts
  · split
    · exact (leave ()).tail ts
    · exact report (Diagnostic.mismatched construct) (fun _ => rfl) () ts
  · exact ignoresPlaces_unexpected _ () ts

/-- Skipping a group ignores places, however many of its brackets are open. -/
theorem ignoresPlaces_skipGroup (construct : Construct) (budget depth : Nat) :
    IgnoresPlaces (skipGroup construct budget depth) := by
  have hunclosed : IgnoresPlaces fun ts => ⟨(), [.unclosed construct (nextToken ts)], ts⟩ :=
    report (Diagnostic.unclosed construct) (fun _ => rfl) ()
  -- The depth goes up as well as down, and only the budget always goes down.
  induction budget generalizing depth with
  | zero =>
    have htooMany := report (Diagnostic.tooManyItems construct.describe) (fun _ => rfl) ()
    exact hunclosed.ite htooMany
  | succ budget ih =>
    have hclosing : IgnoresPlaces fun ts =>
        if depth - 1 = 0 then ⟨(), [], ts.tail⟩
        else skipGroup construct budget (depth - 1) ts.tail := by
      split
      · exact (leave ()).tail
      · exact (ih _).tail
    exact hunclosed.ite ((ih _).tail.ite (hclosing.ite (ih _).tail))

theorem ignoresPlaces_skipSubtree : IgnoresPlaces skipSubtree := by
  intro ts
  unfold skipSubtree
  rw [nextKind_map_unplaced]
  split
  · exact ignoresPlaces_skipGroup _ _ _ ts
  · rw [dropToken_map_unplaced]
    rfl

theorem ignoresPlaces_tooDeep (value : α) : IgnoresPlaces (tooDeep value) := by
  intro ts
  unfold tooDeep
  rw [ignoresPlaces_skipSubtree, nextToken_map_unplaced]
  rfl

/-- Reading items ignores places if reading an item does. -/
theorem ignoresPlaces_items {construct : Construct} {item : List Token → Reading (Item α)}
    (hitem : IgnoresPlaces item) (budget : Nat) : IgnoresPlaces (items construct item budget) := by
  induction budget with
  | zero =>
    exact report (Diagnostic.tooManyItems construct.describe) (fun _ => rfl) _
  | succ budget ih =>
    intro ts
    unfold items
    rw [nextKind_map_unplaced]
    split
    · exact (ignoresPlaces_close construct).map _ ts
    · split
      · exact ih.tail ts
      · refine hitem.andThen (fun made => ?_) ts
        cases made with
        | kept value => exact ih.map _
        | skipped => exact ih
        | spoilt remark => exact leave _

/-! ## Type references and literals -/

theorem ignoresPlaces_nullability : IgnoresPlaces nullability :=
  (leave _).tail.ite (leave _)

theorem ignoresPlaces_typeReference (levels : Nat) : IgnoresPlaces (typeReference levels) := by
  induction levels with
  | zero => exact ignoresPlaces_tooDeep none
  | succ levels ih =>
    have hlist := ih.andThen fun element =>
      (ignoresPlaces_close .listType).andThen fun _ =>
        ignoresPlaces_nullability.map fun mark => some (TypeReference.list element mark)
    intro ts
    unfold typeReference
    rw [nextKind_map_unplaced]
    split
    · exact hlist.tail ts
    · exact (ignoresPlaces_nullability.map _).tail ts
    · exact ignoresPlaces_unexpected _ _ ts

theorem ignoresPlaces_variableName : IgnoresPlaces variableName := by
  intro ts
  unfold variableName
  rw [nextKind_map_unplaced]
  split
  · exact (leave _).tail ts
  · exact ignoresPlaces_unexpected _ _ ts

theorem ignoresPlaces_spoilObject (expectation : Expectation) :
    IgnoresPlaces (spoilObject expectation) :=
  (ignoresPlaces_unexpected expectation ()).andThen fun _ =>
    (ignoresPlaces_skipGroup .objectValue maxItems 1).map _

theorem ignoresPlaces_objectField {value : List Token → Reading Literal}
    (hvalue : IgnoresPlaces value) : IgnoresPlaces (objectField value) := by
  intro ts
  unfold objectField
  rw [nextKind_map_unplaced, tail_map_unplaced, nextKind_map_unplaced]
  split
  · split
    · exact (hvalue.map _).tail ts.tail
    · exact ignoresPlaces_spoilObject _ ts.tail
  · exact ignoresPlaces_spoilObject _ ts

/-- **Literals** ignore places. -/
theorem ignoresPlaces_literal (levels : Nat) : IgnoresPlaces (literal levels) := by
  induction levels with
  | zero => exact ignoresPlaces_tooDeep _
  | succ levels ih =>
    intro ts
    unfold literal
    rw [nextKind_map_unplaced]
    split
    · exact ((ignoresPlaces_items (ignoresPlaces_objectField ih) maxItems).map _).tail ts
    · exact ((ignoresPlaces_items (ih.map _) maxItems).map _).tail ts
    · exact (leave _).tail ts
    · exact (leave _).tail ts
    · exact (leave _).tail ts
    · exact (ignoresPlaces_variableName.map _).tail ts
    · exact ignoresPlaces_unexpected _ _ ts
    · exact ignoresPlaces_unexpected _ _ ts
    · exact ignoresPlaces_skipUnexpected _ _ ts

/-! ## Selections -/

theorem ignoresPlaces_argument {value : List Token → Reading Literal}
    (hvalue : IgnoresPlaces value) : IgnoresPlaces (argument value) := by
  intro ts
  unfold argument
  rw [nextKind_map_unplaced, tail_map_unplaced, nextKind_map_unplaced]
  split
  · split
    · exact (hvalue.map _).tail ts.tail
    · exact ignoresPlaces_unexpected _ _ ts.tail
  · exact ignoresPlaces_skipUnexpected _ _ ts

theorem ignoresPlaces_arguments {value : List Token → Reading Literal}
    (hvalue : IgnoresPlaces value) : IgnoresPlaces (arguments value) :=
  ((ignoresPlaces_items (ignoresPlaces_argument hvalue) maxItems).map _).tail.ite (leave _)

theorem ignoresPlaces_nested {selection : List Token → Reading SelectionSet}
    (hselection : IgnoresPlaces selection) : IgnoresPlaces (nested selection) :=
  (hselection.map _).ite (leave _)

theorem ignoresPlaces_field {value : List Token → Reading Literal}
    {selection : List Token → Reading SelectionSet} (hvalue : IgnoresPlaces value)
    (hselection : IgnoresPlaces selection) : IgnoresPlaces (field value selection) := by
  have hparts : ∀ name, IgnoresPlaces fun ts => (arguments value ts).andThen fun arguments ts =>
      (nested selection ts).map fun selection => Item.kept (Field.mk name arguments selection) :=
    fun name => (ignoresPlaces_arguments hvalue).andThen fun arguments =>
      (ignoresPlaces_nested hselection).map _
  intro ts
  unfold field
  rw [nextKind_map_unplaced]
  split
  · exact (hparts _).tail ts
  · exact ignoresPlaces_skipUnexpected _ _ ts

/-- **Selection sets** ignore places. -/
theorem ignoresPlaces_selectionSet (levels : Nat) : IgnoresPlaces (selectionSet levels) := by
  induction levels with
  | zero => exact ignoresPlaces_tooDeep []
  | succ levels ih =>
    have hfield := ignoresPlaces_field (ignoresPlaces_literal levels) ih
    exact ((ignoresPlaces_items hfield maxItems).map _).tail

/-! ## Definitions -/

theorem ignoresPlaces_variableDefinition : IgnoresPlaces variableDefinition := by
  intro ts
  unfold variableDefinition
  rw [nextKind_map_unplaced]
  split
  · refine IgnoresPlaces.tail (ignoresPlaces_variableName.andThen fun name => ?_) ts
    cases name with
    | none => exact leave _
    | some name => exact ((ignoresPlaces_typeReference maxNesting).map _).tail.ite (leave _)
  · exact ignoresPlaces_skipUnexpected _ _ ts

theorem ignoresPlaces_variableDefinitions : IgnoresPlaces variableDefinitions :=
  ((ignoresPlaces_items ignoresPlaces_variableDefinition maxItems).map _).tail.ite (leave _)

theorem ignoresPlaces_rootSelection (kind : OperationKind) : IgnoresPlaces (rootSelection kind) :=
  (ignoresPlaces_selectionSet maxNesting).ite (ignoresPlaces_unexpected _ _)

theorem ignoresPlaces_name? : IgnoresPlaces name? := by
  intro ts
  unfold name?
  rw [nextKind_map_unplaced]
  split
  · exact (leave _).tail ts
  · exact leave _ ts

theorem ignoresPlaces_operation (kind : OperationKind) : IgnoresPlaces (operation kind) :=
  ignoresPlaces_name?.andThen fun _ => ignoresPlaces_variableDefinitions.andThen fun _ =>
    (ignoresPlaces_rootSelection kind).map _

theorem ignoresPlaces_argumentDefinitions : IgnoresPlaces argumentDefinitions :=
  (ignoresPlaces_skipGroup _ _ _).ite (leave _)

theorem ignoresPlaces_fieldDefinition : IgnoresPlaces fieldDefinition := by
  have hparts : ∀ name, IgnoresPlaces fun ts => (argumentDefinitions ts).andThen fun _ ts =>
      if nextKind ts = .colon then (typeReference maxNesting ts.tail).map fun _ => Item.kept name
      else unexpected (.fieldColon name) (.kept name) ts :=
    fun name => ignoresPlaces_argumentDefinitions.andThen fun _ =>
      ((ignoresPlaces_typeReference maxNesting).map _).tail.ite (ignoresPlaces_unexpected _ _)
  intro ts
  unfold fieldDefinition
  rw [nextKind_map_unplaced]
  split
  · exact (hparts _).tail ts
  · exact ignoresPlaces_skipUnexpected _ _ ts

theorem ignoresPlaces_typeDefinition : IgnoresPlaces typeDefinition := by
  have hnamed : ∀ name, IgnoresPlaces fun ts =>
      if nextKind ts = .opening .brace then
        (items .typeDefinition fieldDefinition maxItems ts.tail).map fun fields =>
          some (TypeDefinition.mk name fields.kept)
      else unexpected (.typeBody name) (some ⟨name, []⟩) ts :=
    fun name => ((ignoresPlaces_items ignoresPlaces_fieldDefinition maxItems).map _).tail.ite
      (ignoresPlaces_unexpected _ _)
  have hunnamed : IgnoresPlaces fun ts => (unexpected .typeName () ts).andThen fun _ ts =>
      if nextKind ts = .opening .brace then
        (skipGroup .typeDefinition maxItems 0 ts).map fun _ => (none : Option TypeDefinition)
      else ⟨none, [], ts⟩ :=
    (ignoresPlaces_unexpected _ ()).andThen fun _ =>
      ((ignoresPlaces_skipGroup _ _ _).map _).ite (leave none)
  intro ts
  unfold typeDefinition
  rw [nextKind_map_unplaced]
  split
  · exact (hnamed _).tail ts
  · exact hunnamed ts

/-- **Definitions** ignore places. -/
theorem ignoresPlaces_definition : IgnoresPlaces definition := by
  intro ts
  unfold definition
  rw [nextKind_map_unplaced]
  split
  · exact (ignoresPlaces_rootSelection _).map _ ts
  · split
    · exact ((ignoresPlaces_operation _).map _).tail ts
    · split
      · exact (ignoresPlaces_typeDefinition.map _).tail ts
      · exact ignoresPlaces_skipUnexpected _ _ ts
  · exact ignoresPlaces_skipUnexpected _ _ ts

/-- Definitions in a row ignore places. -/
theorem ignoresPlaces_definitions (budget : Nat) : IgnoresPlaces (definitions budget) := by
  induction budget with
  | zero =>
    have htooMany := report (.tooManyItems "document") (fun _ => rfl) ([] : List Definition)
    exact (leave []).ite htooMany
  | succ budget ih =>
    have hmore := ignoresPlaces_definition.andThen fun first => ih.map fun more =>
      first.toList ++ more
    exact (leave []).ite hmore

/-- **Documents** ignore places. -/
theorem ignoresPlaces_document : IgnoresPlaces document :=
  (ignoresPlaces_definitions maxItems).map Document.mk

end Reading

/-! ## Parsing -/

namespace Parsed

/-- **Two parses agree up to places**: they give the same document, and report the same with the
same causes, in the same order. -/
structure AgreesUpToPlaces (p q : Parsed) : Prop where
  /-- The documents are the same. -/
  document : p.document = q.document
  /-- The diagnostics agree one by one in their messages and causes. -/
  diagnostics : p.diagnostics.map (fun d => (d.message, d.cause))
    = q.diagnostics.map fun d => (d.message, d.cause)

/-- Parsing tokens without their places gives the same up to places. -/
theorem agreesUpToPlaces_unplaced (ts : List Token) :
    (ofTokens (ts.map Token.unplaced)).AgreesUpToPlaces (ofTokens ts) := by
  constructor
  · rw [ofTokens, Reading.ignoresPlaces_document]
    rfl
  · rw [ofTokens, Reading.ignoresPlaces_document]
    show ((Reading.document ts).diagnostics.map Diagnostic.unplaced).map _ = _
    rw [List.map_map]
    rfl

/-- **Tokens of the same kinds** are parsed to the same document with the same diagnostics, up to
places. -/
theorem agreesUpToPlaces_of_map_kind {ts ts' : List Token}
    (h : ts.map Token.kind = ts'.map Token.kind) :
    (ofTokens ts).AgreesUpToPlaces (ofTokens ts') := by
  have hts := agreesUpToPlaces_unplaced ts
  have hts' := agreesUpToPlaces_unplaced ts'
  rw [map_unplaced_eq_of_map_kind h] at hts
  exact ⟨hts.document.symm.trans hts'.document, hts.diagnostics.symm.trans hts'.diagnostics⟩

end Parsed

end GraphQuery
