import GraphQuery.Parse
import GraphQuery.Proofs.Balance
import GraphQuery.Proofs.Entries

/-! # Derivations

The grammar of documents, given by the trees that derive them. A tree stands for one derivation:
`tokens` is the stretch of input that it derives, each token with its place, and its **meaning** is
the part of a document that it denotes. Every production is one constructor or one field of a
structure, so that what is no derivation cannot be written down.

Nesting is counted in **levels**. The outermost selection set of an operation and the outermost
type reference are at the first level, and each nested selection set, argument value, list item,
object value or list element lies one level deeper than what contains it. `overflow levels` lists
the subtrees that lie just beyond so many levels, in the order in which they are written, and the
`cut` of a tree is its meaning with something else in their place. -/

namespace GraphQuery.Derivation

/-! ## Groups -/

/-- **One round** of a bracketed group: a comma, or an item. -/
inductive Round (α : Type) where
  /-- A comma. -/
  | comma (place : Span)
  /-- An item. -/
  | item (item : α)

/-- **A bracketed group**: items, with commas wherever one likes. -/
structure Group (shape : Delimiter) (α : Type) where
  /-- The place of the opening bracket. -/
  opening : Span
  /-- What is between the brackets. -/
  rounds : List (Round α)
  /-- The place of the closing bracket. -/
  closing : Span

/-- **A name, a colon and what they label**: an argument, or a field of an object. -/
structure Labelled (α : Type) where
  /-- The place of the name. -/
  place : Span
  /-- The name. -/
  name : String
  /-- The place of the colon. -/
  colon : Span
  /-- What is labelled. -/
  value : α

section Groups

variable {shape : Delimiter} {α : Type}

/-- The item of a round that is no comma. -/
def Round.item? : Round α → Option α
  | comma _ => none
  | item a => some a

/-- The tokens of a round. -/
def Round.tokens (ofItem : α → List Token) : Round α → List Token
  | comma place => [⟨.comma, place⟩]
  | item a => ofItem a

/-- The items of a list of rounds. -/
def itemsOf (rounds : List (Round α)) : List α := rounds.filterMap Round.item?

@[simp] theorem itemsOf_nil : itemsOf ([] : List (Round α)) = [] := rfl

@[simp] theorem itemsOf_comma (place : Span) (rounds : List (Round α)) :
    itemsOf (.comma place :: rounds) = itemsOf rounds := rfl

@[simp] theorem itemsOf_item (a : α) (rounds : List (Round α)) :
    itemsOf (.item a :: rounds) = a :: itemsOf rounds := rfl

/-- An item is in the list exactly if a round brings it. -/
theorem mem_itemsOf {a : α} {rounds : List (Round α)} : a ∈ itemsOf rounds ↔ .item a ∈ rounds := by
  induction rounds with
  | nil => simp
  | cons round rounds ih => cases round <;> simp [ih]

/-- The items of a group. -/
def Group.items (g : Group shape α) : List α := itemsOf g.rounds

/-- The tokens of a group. -/
def Group.tokens (ofItem : α → List Token) (g : Group shape α) : List Token :=
  ⟨.opening shape, g.opening⟩ ::
    (g.rounds.flatMap (Round.tokens ofItem) ++ [⟨.closing shape, g.closing⟩])

/-- The tokens of a group, where those of an item may depend on its being there. Recursion on
trees goes through this form. -/
def Group.tokensAttach (g : Group shape α) (ofItem : (a : α) → .item a ∈ g.rounds → List Token) :
    List Token :=
  ⟨.opening shape, g.opening⟩ ::
    (g.rounds.attach.flatMap (fun
      | ⟨.comma place, _⟩ => [⟨.comma, place⟩]
      | ⟨.item a, h⟩ => ofItem a h) ++ [⟨.closing shape, g.closing⟩])

theorem Group.tokensAttach_eq (g : Group shape α) (ofItem : α → List Token) :
    (g.tokensAttach fun a _ => ofItem a) = g.tokens ofItem := by
  rw [tokensAttach, tokens, List.flatMap_subtype (g := Round.tokens ofItem), List.unattach_attach]
  intro round h
  cases round <;> rfl

/-- Whether reading has rounds enough for a group: one for each comma and item, and one for the
closing bracket. -/
def Group.Fits (g : Group shape α) : Prop := g.rounds.length < maxItems

/-- An item is smaller than its group. -/
theorem Group.sizeOf_item_lt [SizeOf α] {g : Group shape α} {a : α} (h : .item a ∈ g.rounds) :
    sizeOf a < sizeOf g := by
  have hlt := List.sizeOf_lt_of_mem h
  cases g
  simp only [Round.item.sizeOf_spec] at hlt
  simp only [Group.mk.sizeOf_spec]
  omega

/-- The tokens of a label and what it labels. -/
def Labelled.tokens (ofValue : α → List Token) (l : Labelled α) : List Token :=
  ⟨.name l.name, l.place⟩ :: ⟨.colon, l.colon⟩ :: ofValue l.value

end Groups

/-! ## Literals -/

/-- **The derivation of a literal.** -/
inductive Value where
  /-- An integer. -/
  | int (place : Span) (digits : String)
  /-- A string. -/
  | string (place : Span) (contents : String)
  /-- A bare name: a truth value or an enum value. -/
  | word (place : Span) (text : String)
  /-- A dollar sign and a name. -/
  | variableRef (dollar place : Span) (text : String)
  /-- A list in square brackets. -/
  | list (items : Group .bracket Value)
  /-- An object in curly brackets. -/
  | object (fields : Group .brace (Labelled Value))

namespace Value

theorem sizeOf_lt_of_mem_list {g : Group .bracket Value} {v : Value} (h : .item v ∈ g.rounds) :
    sizeOf v < sizeOf (list g) := by
  have hlt := Group.sizeOf_item_lt h
  simp only [list.sizeOf_spec]
  omega

theorem sizeOf_lt_of_mem_object {g : Group .brace (Labelled Value)} {l : Labelled Value}
    (h : .item l ∈ g.rounds) : sizeOf l.value < sizeOf (object g) := by
  have hlt := Group.sizeOf_item_lt h
  cases l
  simp only [Labelled.mk.sizeOf_spec] at hlt
  simp only [object.sizeOf_spec]
  omega

/-- The tokens of a literal. -/
def tokens : Value → List Token
  | int place digits => [⟨.int digits, place⟩]
  | string place contents => [⟨.string contents, place⟩]
  | word place text => [⟨.name text, place⟩]
  | variableRef dollar place text => [⟨.dollar, dollar⟩, ⟨.name text, place⟩]
  | list g => g.tokensAttach fun v _ => v.tokens
  | object g =>
    g.tokensAttach fun l _ => ⟨.name l.name, l.place⟩ :: ⟨.colon, l.colon⟩ :: l.value.tokens
decreasing_by
  · exact sizeOf_lt_of_mem_list ‹_›
  · exact sizeOf_lt_of_mem_object ‹_›

@[simp] theorem tokens_list (g : Group .bracket Value) : (list g).tokens = g.tokens tokens := by
  rw [tokens, Group.tokensAttach_eq]

@[simp] theorem tokens_object (g : Group .brace (Labelled Value)) :
    (object g).tokens = g.tokens (Labelled.tokens tokens) := by
  rw [tokens, ← Group.tokensAttach_eq]
  rfl

/-- **The meaning of a literal.** Of a key that repeats in an object, the first position and the
last value count. -/
def meaning : Value → Literal
  | int _ digits => .int digits
  | string _ contents => .string contents
  | word _ text =>
    if text = "true" then .boolean true else if text = "false" then .boolean false else .enum text
  | variableRef _ _ text => .variableRef text
  | list g => .array (g.items.attach.map fun ⟨v, _⟩ => v.meaning)
  | object g =>
    .object (Entries.lastWrites (g.items.attach.map fun ⟨l, _⟩ => (l.name, l.value.meaning)))
decreasing_by
  · exact sizeOf_lt_of_mem_list (mem_itemsOf.1 ‹_›)
  · exact sizeOf_lt_of_mem_object (mem_itemsOf.1 ‹_›)

@[simp] theorem meaning_list (g : Group .bracket Value) :
    (list g).meaning = .array (g.items.map meaning) := by
  rw [meaning, List.attach_map_val]

@[simp] theorem meaning_object (g : Group .brace (Labelled Value)) :
    (object g).meaning
      = .object (Entries.lastWrites (g.items.map fun l => (l.name, l.value.meaning))) := by
  rw [meaning]
  simp

/-- Whether every group of a literal fits. -/
def Fits : Value → Prop
  | int _ _ | string _ _ | word _ _ | variableRef _ _ _ => True
  | list g => g.Fits ∧ ∀ v ∈ g.items, v.Fits
  | object g => g.Fits ∧ ∀ l ∈ g.items, l.value.Fits
decreasing_by
  · exact sizeOf_lt_of_mem_list (mem_itemsOf.1 ‹_›)
  · exact sizeOf_lt_of_mem_object (mem_itemsOf.1 ‹_›)

@[simp] theorem fits_list (g : Group .bracket Value) :
    (list g).Fits ↔ g.Fits ∧ ∀ v ∈ g.items, v.Fits := by
  rw [Fits]

@[simp] theorem fits_object (g : Group .brace (Labelled Value)) :
    (object g).Fits ↔ g.Fits ∧ ∀ l ∈ g.items, l.value.Fits := by
  rw [Fits]

end Value

/-! ## Selections -/

/-- **The derivation of a selected field**: a name, arguments if there are any, and a nested
selection set if there is one. -/
structure Field where
  /-- The place of the name. -/
  place : Span
  /-- The name. -/
  name : String
  /-- The arguments in round brackets. -/
  arguments : Option (Group .paren (Labelled Value))
  /-- The nested selection set in curly brackets. -/
  selection : Option (Group .brace Field)

/-- **The derivation of a selection set.** -/
abbrev Selection := Group .brace Field

namespace Field

/-- The arguments of a field, one by one. -/
def argumentItems (f : Field) : List (Labelled Value) := f.arguments.elim [] Group.items

theorem sizeOf_lt_of_mem {place : Span} {name : String}
    {arguments : Option (Group .paren (Labelled Value))} {g : Selection} {f : Field}
    (h : .item f ∈ g.rounds) : sizeOf f < sizeOf (Field.mk place name arguments (some g)) := by
  have hlt := Group.sizeOf_item_lt h
  simp only [Field.mk.sizeOf_spec, Option.some.sizeOf_spec]
  omega

/-- The tokens of a field. -/
def tokens : Field → List Token
  | ⟨place, name, arguments, none⟩ =>
    ⟨.name name, place⟩ :: arguments.elim [] (Group.tokens (Labelled.tokens Value.tokens))
  | ⟨place, name, arguments, some g⟩ =>
    ⟨.name name, place⟩ :: (arguments.elim [] (Group.tokens (Labelled.tokens Value.tokens))
      ++ g.tokensAttach fun f _ => f.tokens)
decreasing_by
  exact sizeOf_lt_of_mem ‹_›

theorem tokens_eq (f : Field) :
    f.tokens = ⟨.name f.name, f.place⟩ ::
      (f.arguments.elim [] (Group.tokens (Labelled.tokens Value.tokens))
        ++ f.selection.elim [] (Group.tokens tokens)) := by
  obtain ⟨place, name, arguments, _ | g⟩ := f
  · simp [tokens]
  · rw [tokens, Group.tokensAttach_eq]
    rfl

/-- The meaning of a field. -/
def meaning : Field → GraphQuery.Field
  | ⟨_, name, arguments, none⟩ =>
    ⟨name, (arguments.elim [] Group.items).map fun l => ⟨l.name, l.value.meaning⟩, none⟩
  | ⟨_, name, arguments, some g⟩ =>
    ⟨name, (arguments.elim [] Group.items).map fun l => ⟨l.name, l.value.meaning⟩,
      some (g.items.attach.map fun ⟨f, _⟩ => f.meaning)⟩
decreasing_by
  exact sizeOf_lt_of_mem (mem_itemsOf.1 ‹_›)

theorem meaning_eq (f : Field) :
    f.meaning = ⟨f.name, f.argumentItems.map fun l => ⟨l.name, l.value.meaning⟩,
      f.selection.map fun g => g.items.map meaning⟩ := by
  obtain ⟨place, name, arguments, _ | g⟩ := f
  · rw [meaning]
    rfl
  · rw [meaning, List.attach_map_val]
    rfl

/-- Whether every group of a field fits. -/
def Fits : Field → Prop
  | ⟨_, _, arguments, none⟩ => ∀ g ∈ arguments, g.Fits ∧ ∀ l ∈ g.items, l.value.Fits
  | ⟨_, _, arguments, some s⟩ =>
    (∀ g ∈ arguments, g.Fits ∧ ∀ l ∈ g.items, l.value.Fits) ∧ s.Fits ∧ ∀ f ∈ s.items, f.Fits
decreasing_by
  exact sizeOf_lt_of_mem (mem_itemsOf.1 ‹_›)

theorem fits_iff (f : Field) :
    f.Fits ↔ (∀ g ∈ f.arguments, g.Fits ∧ ∀ l ∈ g.items, l.value.Fits)
      ∧ ∀ s ∈ f.selection, s.Fits ∧ ∀ f ∈ s.items, f.Fits := by
  obtain ⟨place, name, arguments, _ | g⟩ := f
  · rw [Fits]
    simp
  · rw [Fits]
    simp

end Field

/-! ## Type references -/

/-- **The derivation of a type reference**: a name, or a list of another type reference, and then
an exclamation mark if the position is never null. -/
inductive TypeTree where
  /-- A named type. -/
  | named (place : Span) (name : String) (mark : Option Span)
  /-- A list type. -/
  | list (opening : Span) (element : TypeTree) (closing : Span) (mark : Option Span)

namespace TypeTree

/-- The exclamation mark of a type reference, if there is one. -/
def markTokens (mark : Option Span) : List Token := mark.elim [] fun place => [⟨.bang, place⟩]

/-- What the presence of an exclamation mark means. -/
def nullability (mark : Option Span) : Nullability := if mark.isSome then .nonNull else .nullable

/-- The tokens of a type reference. -/
def tokens : TypeTree → List Token
  | named place name mark => ⟨.name name, place⟩ :: markTokens mark
  | list opening element closing mark =>
    ⟨.opening .bracket, opening⟩ ::
      (element.tokens ++ ⟨.closing .bracket, closing⟩ :: markTokens mark)

/-- The meaning of a type reference. -/
def meaning : TypeTree → TypeReference
  | named _ name mark => .named name (nullability mark)
  | list _ element _ mark => .list (some element.meaning) (nullability mark)

end TypeTree

/-! ## Definitions -/

/-- **The derivation of a declared variable**: a dollar sign, a name, and its type if it has
one. -/
structure Variable where
  /-- The place of the dollar sign. -/
  dollar : Span
  /-- The place of the name. -/
  place : Span
  /-- The name. -/
  name : String
  /-- The type after its colon. -/
  type : Option (Span × TypeTree)

/-- The tokens of a declared variable. -/
def Variable.tokens (v : Variable) : List Token :=
  ⟨.dollar, v.dollar⟩ :: ⟨.name v.name, v.place⟩ ::
    v.type.elim [] fun (colon, type) => ⟨.colon, colon⟩ :: type.tokens

/-- The meaning of a declared variable. -/
def Variable.meaning (v : Variable) : VariableDefinition :=
  ⟨v.name, v.type.map fun (_, type) => type.meaning⟩

/-- **Balanced tokens in brackets** that are passed without being read. -/
structure Enclosed (shape : Delimiter) where
  /-- The place of the opening bracket. -/
  opening : Span
  /-- What is between the brackets. -/
  inside : List Token
  /-- The place of the closing bracket. -/
  closing : Span
  /-- The closing bracket is the one that balances the opening one. -/
  balanced : Balanced shape inside

/-- The tokens of what is enclosed, with their brackets. -/
def Enclosed.tokens {shape : Delimiter} (e : Enclosed shape) : List Token :=
  ⟨.opening shape, e.opening⟩ :: (e.inside ++ [⟨.closing shape, e.closing⟩])

/-- **The derivation of a field of a type**: a name, what it takes if it takes anything, and its
type. -/
structure FieldType where
  /-- The place of the name. -/
  place : Span
  /-- The name. -/
  name : String
  /-- The arguments that the field takes. -/
  takes : Option (Enclosed .paren)
  /-- The place of the colon. -/
  colon : Span
  /-- The type. -/
  type : TypeTree

/-- The tokens of a field of a type. -/
def FieldType.tokens (f : FieldType) : List Token :=
  ⟨.name f.name, f.place⟩ ::
    (f.takes.elim [] Enclosed.tokens ++ ⟨.colon, f.colon⟩ :: f.type.tokens)

/-- **The derivation of a definition.** -/
inductive Definition where
  /-- An operation with its keyword, its name and variables if it has them, and its selection. -/
  | operation (kind : OperationKind) (keyword : Span) (name : Option (Span × String))
      (declared : Option (Group .paren Variable)) (selection : Selection)
  /-- An anonymous query. -/
  | anonymous (selection : Selection)
  /-- A type definition with its keyword, its name and its fields. -/
  | typeDefinition (keyword place : Span) (name : String) (fields : Group .brace FieldType)

namespace Definition

/-- The tokens of a definition. -/
def tokens : Definition → List Token
  | operation kind keyword name declared selection =>
    ⟨.name kind.keyword, keyword⟩ ::
      ((name.elim [] fun (place, name) => [⟨.name name, place⟩])
        ++ (declared.elim [] (Group.tokens Variable.tokens) ++ selection.tokens Field.tokens))
  | anonymous selection => selection.tokens Field.tokens
  | typeDefinition keyword place name fields =>
    ⟨.name "type", keyword⟩ :: ⟨.name name, place⟩ :: fields.tokens FieldType.tokens

/-- The meaning of a definition. -/
def meaning : Definition → GraphQuery.Definition
  | operation kind _ name declared selection =>
    .operation ⟨kind, name.map Prod.snd, (declared.elim [] Group.items).map Variable.meaning,
      selection.items.map Field.meaning⟩
  | anonymous selection => .operation ⟨.query, none, [], selection.items.map Field.meaning⟩
  | typeDefinition _ _ name fields => .typeDefinition ⟨name, fields.items.map FieldType.name⟩

/-- Whether every group of a definition fits, and what is passed unread is no longer than skipping
goes. -/
def Fits : Definition → Prop
  | operation _ _ _ declared selection =>
    (∀ g ∈ declared, g.Fits) ∧ selection.Fits ∧ ∀ f ∈ selection.items, f.Fits
  | anonymous selection => selection.Fits ∧ ∀ f ∈ selection.items, f.Fits
  | typeDefinition _ _ _ fields =>
    fields.Fits ∧ ∀ f ∈ fields.items, ∀ e ∈ f.takes, e.tokens.length ≤ maxItems

end Definition

/-- **The derivation of a document.** -/
structure Document where
  /-- The definitions. -/
  definitions : List Definition

namespace Document

/-- The tokens of a document. -/
def tokens (d : Document) : List Token := d.definitions.flatMap Definition.tokens

/-- The meaning of a document. -/
def meaning (d : Document) : GraphQuery.Document := ⟨d.definitions.map Definition.meaning⟩

/-- Whether reading has rounds enough for every construct of a document. -/
def Fits (d : Document) : Prop :=
  d.definitions.length ≤ maxItems ∧ ∀ definition ∈ d.definitions, definition.Fits

end Document

/-! ## Nesting -/

/-- **A subtree** that counts as a level of nesting. -/
inductive Subtree where
  /-- A literal. -/
  | value (value : Value)
  /-- A selection set. -/
  | selection (selection : Selection)
  /-- A type reference. -/
  | type (type : TypeTree)

namespace Subtree

/-- The tokens of a subtree. -/
def tokens : Subtree → List Token
  | value v => v.tokens
  | selection s => s.tokens Field.tokens
  | type t => t.tokens

/-- The diagnostic on a subtree that nests too deep, at its first token. -/
def fault (s : Subtree) : Diagnostic := .nestedTooDeep (nextToken s.tokens)

/-- Whether a subtree is one token or one bracketed group. A variable is not, for its dollar sign
and its name are two tokens, and neither is a type reference with an exclamation mark after it. -/
def isUnit : Subtree → Bool
  | value (.variableRef _ _ _) => false
  | type (.named _ _ mark) | type (.list _ _ _ mark) => mark.isNone
  | value _ | selection _ => true

end Subtree

/-- The subtrees of a literal that lie beyond so many levels. -/
def Value.overflow : (levels : Nat) → Value → List Subtree
  | 0, v => [.value v]
  | levels + 1, list g => g.items.flatMap (overflow levels)
  | levels + 1, object g => g.items.flatMap fun l => overflow levels l.value
  | _ + 1, _ => []

/-- The meaning of a literal with a remark in place of what lies beyond so many levels. -/
def Value.cut : (levels : Nat) → Value → Literal
  | 0, _ => .illegal "maximum nesting depth exceeded"
  | levels + 1, list g => .array (g.items.map (cut levels))
  | levels + 1, object g =>
    .object (Entries.lastWrites (g.items.map fun l => (l.name, cut levels l.value)))
  | _ + 1, v => v.meaning

/-- The subtrees of a selection set that lie beyond so many levels. -/
def Selection.overflow : (levels : Nat) → Selection → List Subtree
  | 0, s => [.selection s]
  | levels + 1, s => s.items.flatMap fun f =>
    (f.argumentItems.flatMap fun l => l.value.overflow levels)
      ++ f.selection.elim [] (overflow levels)

/-- The meaning of a selection set with the empty one in place of each that lies beyond so many
levels. -/
def Selection.cut : (levels : Nat) → Selection → SelectionSet
  | 0, _ => []
  | levels + 1, s => s.items.map fun f =>
    ⟨f.name, f.argumentItems.map fun l => ⟨l.name, l.value.cut levels⟩,
      f.selection.map (cut levels)⟩

/-- The subtrees of a type reference that lie beyond so many levels. -/
def TypeTree.overflow : (levels : Nat) → TypeTree → List Subtree
  | 0, t => [.type t]
  | levels + 1, list _ element _ _ => overflow levels element
  | _ + 1, named _ _ _ => []

/-- The meaning of a type reference without what lies beyond so many levels. -/
def TypeTree.cut : (levels : Nat) → TypeTree → Option TypeReference
  | 0, _ => none
  | levels + 1, list _ element _ mark => some (.list (cut levels element) (nullability mark))
  | _ + 1, named _ name mark => some (.named name (nullability mark))

/-- The subtrees of a declared variable that nest too deep. -/
def Variable.overflow (v : Variable) : List Subtree :=
  v.type.elim [] fun (_, type) => type.overflow maxNesting

/-- The meaning of a declared variable without what nests too deep. -/
def Variable.cut (v : Variable) : VariableDefinition :=
  ⟨v.name, v.type.bind fun (_, type) => type.cut maxNesting⟩

/-- The subtrees of a definition that nest too deep. -/
def Definition.overflow : Definition → List Subtree
  | operation _ _ _ declared selection =>
    (declared.elim [] Group.items).flatMap Variable.overflow ++ selection.overflow maxNesting
  | anonymous selection => selection.overflow maxNesting
  | typeDefinition _ _ _ fields => fields.items.flatMap fun f => f.type.overflow maxNesting

/-- The meaning of a definition without what nests too deep. -/
def Definition.cut : Definition → GraphQuery.Definition
  | operation kind _ name declared selection =>
    .operation ⟨kind, name.map Prod.snd, (declared.elim [] Group.items).map Variable.cut,
      selection.cut maxNesting⟩
  | anonymous selection => .operation ⟨.query, none, [], selection.cut maxNesting⟩
  | typeDefinition _ _ name fields => .typeDefinition ⟨name, fields.items.map FieldType.name⟩

/-- **The subtrees of a document that nest too deep**, in the order in which they are written. -/
def Document.overflow (d : Document) : List Subtree := d.definitions.flatMap Definition.overflow

/-- **The meaning of a document without what nests too deep.** -/
def Document.cut (d : Document) : GraphQuery.Document := ⟨d.definitions.map Definition.cut⟩

end GraphQuery.Derivation
