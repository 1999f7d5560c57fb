import GraphQuery.Parse
import GraphQuery.Proofs.DocumentJson
import GraphQuery.Proofs.ValueJson
import GraphQuery.Variables

/-! # What is read holds maps

The fields of an object literal are written one after the other, which leaves each name once. Every
document that is read from tokens, well-formed or not, is therefore one that a program can hold
(`Parsed.keyed`), and it is read back from its JSON text (`Parsed.document_survivesJson`). The
members of a JSON object are sorted, which leaves each name once as well, and so the values and the
variables that are read from a JSON text can be held, too (`Value.wellKeyed_of_ofJsonText?`,
`Variables.wellKeyed_of_ofJsonText?`).

For documents the proof goes reader by reader. Nothing is asked of the tokens, so that it does not
matter where a reader leaves off. -/

namespace GraphQuery

/-! ## Values -/

namespace Value

mutual

/-- **Every value that is read from a tree** is well keyed. -/
theorem wellKeyed_of_ofJson? : (json : Json) → {value : Value} → ofJson? json = some value →
    value.WellKeyed
  | .null, _, rfl => .null
  | .bool _, _, rfl => .boolean _
  | .int n, _, rfl => by
    unfold ofInteger
    split
    · exact .int _
    · exact .float _
  | .float _, _, rfl => .float _
  | .string _, _, rfl => .string _
  | .array items, _, h => by
    obtain ⟨values, hvalues, rfl⟩ := Option.map_eq_some_iff.1 h
    exact .list (wellKeyed_of_itemsOfJson? items hvalues)
  | .object members, _, h => by
    obtain ⟨entries, hentries, rfl⟩ := Option.map_eq_some_iff.1 h
    refine .object (Json.ascends_sortedMembers entries).distinctKeys fun entry hentry => ?_
    exact wellKeyed_of_membersOfJson? members hentries entry (Json.mem_of_mem_sortedMembers hentry)

theorem wellKeyed_of_itemsOfJson? : (items : List Json) → {values : List Value} →
    itemsOfJson? items = some values → ∀ value ∈ values, value.WellKeyed
  | [], _, rfl => by simp
  | item :: rest, _, h => by
    simp only [itemsOfJson?, bind, pure, Option.bind_eq_some_iff, Option.some.injEq] at h
    obtain ⟨value, hvalue, values, hvalues, rfl⟩ := h
    exact List.forall_mem_cons.2
      ⟨wellKeyed_of_ofJson? item hvalue, wellKeyed_of_itemsOfJson? rest hvalues⟩

theorem wellKeyed_of_membersOfJson? : (members : List (String × Json)) →
    {entries : List (String × Value)} → membersOfJson? members = some entries →
    ∀ entry ∈ entries, entry.2.WellKeyed
  | [], _, rfl => by simp
  | (name, json) :: rest, _, h => by
    simp only [membersOfJson?, bind, pure, Option.bind_eq_some_iff, Option.some.injEq] at h
    obtain ⟨value, hvalue, entries, hentries, rfl⟩ := h
    exact List.forall_mem_cons.2
      ⟨wellKeyed_of_ofJson? json hvalue, wellKeyed_of_membersOfJson? rest hentries⟩

end

/-- A value that is read from a text. -/
theorem wellKeyed_of_ofJsonText? {text : String} {value : Value}
    (h : ofJsonText? text = some value) : value.WellKeyed := by
  obtain ⟨json, -, hread⟩ := Option.bind_eq_some_iff.1 h
  split at hread
  · exact wellKeyed_of_ofJson? json hread
  · cases hread

end Value

/-- Variables that are read from a text. -/
theorem Variables.wellKeyed_of_ofJsonText? {text : String} {given : Variables}
    (h : ofJsonText? text = some given) : (Value.object given.entries).WellKeyed := by
  obtain ⟨value, hvalue, rfl⟩ := Option.map_eq_some_iff.1 h
  have hkeyed := Value.wellKeyed_of_ofJsonText? hvalue
  cases value with
  | object entries => exact hkeyed
  | _ => exact .object List.nodup_nil nofun

/-! ## Documents -/

namespace Reading

variable {α : Type} {P : α → Prop}

/-- **A reader makes** values of some kind, whatever tokens it is given. -/
def Makes (P : α → Prop) (reader : List Token → Reading α) : Prop := ∀ ts, P (reader ts).value

/-- An item is of some kind if it is kept. -/
def Item.IsIfKept (P : α → Prop) : Item α → Prop
  | .kept value => P value
  | .skipped | .spoilt _ => True

/-- **The items of a construct** are of the kind that each of them is. -/
theorem makes_items (construct : Construct) {item : List Token → Reading (Item α)}
    (hitem : Makes (Item.IsIfKept P) item) (budget : Nat) :
    Makes (fun made => ∀ value ∈ made.kept, P value) (items construct item budget) := by
  induction budget with
  | zero => exact fun ts => by simp [items]
  | succ budget ih =>
    intro ts
    have hfirst := hitem ts
    rw [items]
    split
    · simp
    · split
      · exact ih ts.tail
      · rw [andThen_value]
        cases hmade : (item ts).value with
        | kept value =>
          rw [hmade] at hfirst
          exact List.forall_mem_cons.2 ⟨hfirst, ih (item ts).rest⟩
        | skipped => exact ih (item ts).rest
        | spoilt remark => simp

/-! ### Literals -/

/-- The literal of a bare name has no objects in it. -/
theorem wellKeyed_literalOfName (name : String) : (literalOfName name).WellKeyed := by
  unfold literalOfName
  split
  · exact .boolean true
  · split
    · exact .boolean false
    · exact .enum name

/-- Of the fields of an object each name is left once. -/
theorem wellKeyed_objectLiteral {fields : Items (String × Literal)}
    (h : ∀ field ∈ fields.kept, field.2.WellKeyed) : (objectLiteral fields).WellKeyed := by
  unfold objectLiteral
  split
  · next remark _ => exact .illegal remark
  · refine .object (Entries.distinctKeys_ofPairs fields.kept) fun field hfield => ?_
    exact h field ((Entries.ofPairs_subperm fields.kept).subset hfield)

theorem makes_objectField {value : List Token → Reading Literal}
    (hvalue : Makes Literal.WellKeyed value) :
    Makes (Item.IsIfKept fun field => field.2.WellKeyed) (objectField value) := by
  intro ts
  unfold objectField
  split
  · split
    · exact hvalue ts.tail.tail
    · trivial
  · trivial

/-- **Every literal that is read** is well keyed. -/
theorem makes_literal (levels : Nat) : Makes Literal.WellKeyed (literal levels) := by
  induction levels with
  | zero => exact fun ts => .illegal _
  | succ levels ih =>
    intro ts
    rw [literal]
    split
    · exact wellKeyed_objectLiteral (makes_items .objectValue (makes_objectField ih) _ ts.tail)
    · have hitem : Makes (Item.IsIfKept Literal.WellKeyed)
          fun ts => (literal levels ts).map .kept := ih
      exact .array (makes_items .listValue hitem _ ts.tail)
    · next digits _ => exact .int digits
    · next contents _ => exact .string contents
    · next name _ => exact wellKeyed_literalOfName name
    · exact .variableRef _
    · exact .illegal _
    · exact .illegal _
    · exact .illegal _

/-! ### Selections -/

theorem makes_argument {value : List Token → Reading Literal}
    (hvalue : Makes Literal.WellKeyed value) :
    Makes (Item.IsIfKept fun argument => argument.value.WellKeyed) (argument value) := by
  intro ts
  unfold argument
  split
  · split
    · exact hvalue ts.tail.tail
    · exact .illegal _
  · trivial

theorem makes_arguments {value : List Token → Reading Literal}
    (hvalue : Makes Literal.WellKeyed value) :
    Makes (fun arguments => ∀ argument ∈ arguments, argument.value.WellKeyed)
      (arguments value) := by
  intro ts
  unfold arguments
  split
  · exact makes_items .fieldArguments (makes_argument hvalue) _ ts.tail
  · simp

theorem makes_nested {selection : List Token → Reading SelectionSet}
    (hselection : Makes (fun fields => ∀ field ∈ fields, field.WellKeyed) selection) :
    Makes (fun made => ∀ fields, made = some fields → ∀ field ∈ fields, Field.WellKeyed field)
      (nested selection) := by
  intro ts
  unfold nested
  split
  · rintro fields ⟨⟩
    exact hselection ts
  · simp

theorem makes_field {value : List Token → Reading Literal}
    {selection : List Token → Reading SelectionSet} (hvalue : Makes Literal.WellKeyed value)
    (hselection : Makes (fun fields => ∀ field ∈ fields, field.WellKeyed) selection) :
    Makes (Item.IsIfKept Field.WellKeyed) (field value selection) := by
  intro ts
  unfold field
  split
  · exact .mk (makes_arguments hvalue ts.tail) (makes_nested hselection _)
  · trivial

/-- **Every selection set that is read** is well keyed. -/
theorem makes_selectionSet (levels : Nat) :
    Makes (fun fields => ∀ field ∈ fields, field.WellKeyed) (selectionSet levels) := by
  induction levels with
  | zero => exact fun ts => by simp [selectionSet, tooDeep]
  | succ levels ih =>
    intro ts
    rw [selectionSet]
    exact makes_items .selectionSet (makes_field (makes_literal levels) ih) _ ts.tail

/-! ### Definitions -/

theorem makes_rootSelection (kind : OperationKind) :
    Makes (fun fields => ∀ field ∈ fields, field.WellKeyed) (rootSelection kind) := by
  intro ts
  unfold rootSelection
  split
  · exact makes_selectionSet maxNesting ts
  · simp [unexpected]

/-- **Every definition that is read** is well keyed. -/
theorem makes_definition :
    Makes (fun made => ∀ definition ∈ made, definition.WellKeyed) definition := by
  intro ts
  unfold definition
  split
  · simpa [Definition.WellKeyed] using makes_rootSelection .query ts
  · split
    · next kind _ => simpa [Definition.WellKeyed, operation] using makes_rootSelection kind _
    · split
      · simp [Definition.WellKeyed]
      · simp [skipUnexpected]
  · simp [skipUnexpected]

theorem makes_definitions (budget : Nat) :
    Makes (fun made => ∀ definition ∈ made, definition.WellKeyed) (definitions budget) := by
  induction budget with
  | zero =>
    intro ts
    rw [definitions]
    split <;> simp
  | succ budget ih =>
    intro ts
    rw [definitions]
    split
    · simp
    · refine List.forall_mem_append.2 ⟨?_, ih (definition ts).rest⟩
      simpa using makes_definition ts

end Reading

namespace Parsed

/-- **The document of a token list**, as a program can hold it. -/
def keyed (tokens : List Token) : Document.Keyed :=
  ⟨(ofTokens tokens).document, Reading.makes_definitions _ tokens⟩

/-- **Every document that is parsed is read back** from its JSON text, if as many levels may be
entered as it has. -/
theorem document_survivesJson (tokens : List Token) {levels : Nat}
    (hlevels : (ofTokens tokens).document.toJson.depth ≤ levels) :
    (Json.parse? (ofTokens tokens).document.toJson.compact).bind (Document.ofJson? levels)
      = some (ofTokens tokens).document := by
  have hparse := (keyed tokens).readable_toJson.parse?_compact
  dsimp only [keyed] at hparse
  rw [hparse]
  exact (keyed tokens).ofJson?_toJson hlevels

end Parsed

end GraphQuery
