import GraphQuery.Parse
import GraphQuery.Proofs.Rounds
import Mathlib.Data.List.Infix

/-! # The calls of a parse

Readers call each other, each on what the ones before it have left. A **call** is a reader together
with the tokens that are next for it, and the calls that are **reached** in a parse are those of
the definitions of its document, and those that they make in turn. Each rule of `Call.Makes` is one
place where one reader calls another.

What a reached call records is recorded in the parse (`Call.Reached.isInfix_diagnostics`). -/

namespace GraphQuery

namespace Reading

variable {α : Type}

/-- **Where the items stand** in a construct: with so many rounds on `ts`, one of them reads an
item from `us`. -/
inductive ItemAt (construct : Construct) (item : List Token → Reading (Item α)) :
    (budget : Nat) → (ts us : List Token) → Prop where
  /-- The item of this round. -/
  | here {budget : Nat} {ts : List Token} (hends : construct.endsAt (nextKind ts) = false)
      (hcomma : nextKind ts ≠ .comma) : ItemAt construct item (budget + 1) ts ts
  /-- An item after a comma. -/
  | comma {budget : Nat} {ts us : List Token} (hcomma : nextKind ts = .comma)
      (h : ItemAt construct item budget ts.tail us) : ItemAt construct item (budget + 1) ts us
  /-- An item after another one that does not spoil the construct. -/
  | later {budget : Nat} {ts us : List Token} (hends : construct.endsAt (nextKind ts) = false)
      (hcomma : nextKind ts ≠ .comma) (hvalue : ∀ remark, (item ts).value ≠ .spoilt remark)
      (h : ItemAt construct item budget (item ts).rest us) :
      ItemAt construct item (budget + 1) ts us

/-- What is recorded on an item is recorded on the construct. -/
theorem ItemAt.isInfix_diagnostics {construct : Construct} {item : List Token → Reading (Item α)}
    {budget : Nat} {ts us : List Token} (h : ItemAt construct item budget ts us) :
    (item us).diagnostics <:+: (items construct item budget ts).diagnostics := by
  induction h with
  | here hends hcomma =>
    rw [items_item hends hcomma]
    exact (List.prefix_append _ _).isInfix
  | comma hcomma _ ih =>
    rwa [items, if_neg (by simp [hcomma]), if_pos hcomma]
  | @later budget ts us hends hcomma hvalue _ ih =>
    rw [items_item hends hcomma]
    refine ih.trans ?_
    cases hitem : (item ts).value with
    | spoilt remark => exact absurd hitem (hvalue remark)
    | _ =>
      rw [andThen_diagnostics, hitem]
      exact (List.suffix_append _ _).isInfix

/-- **Where the definitions stand** in a document. -/
inductive DefinitionAt : (budget : Nat) → (ts us : List Token) → Prop where
  /-- The definition of this round. -/
  | here {budget : Nat} {ts : List Token} (hmore : nextKind ts ≠ .eof) :
      DefinitionAt (budget + 1) ts ts
  /-- A definition after another one. -/
  | later {budget : Nat} {ts us : List Token} (hmore : nextKind ts ≠ .eof)
      (h : DefinitionAt budget (definition ts).rest us) : DefinitionAt (budget + 1) ts us

/-- What is recorded on a definition is recorded on the document. -/
theorem DefinitionAt.isInfix_diagnostics {budget : Nat} {ts us : List Token}
    (h : DefinitionAt budget ts us) :
    (definition us).diagnostics <:+: (definitions budget ts).diagnostics := by
  induction h with
  | here hmore =>
    rw [definitions, if_neg hmore]
    exact (List.prefix_append _ _).isInfix
  | later hmore _ ih =>
    rw [definitions, if_neg hmore]
    exact ih.trans (List.suffix_append _ _).isInfix

end Reading

open Reading

/-- **A call** of a reader, on the tokens that are next. -/
inductive Call where
  /-- Of a definition. -/
  | definition (ts : List Token)
  /-- Of the variables of an operation. -/
  | declarations (ts : List Token)
  /-- Of the body of a type. -/
  | typeBody (ts : List Token)
  /-- Of a selection set that may nest so many levels deep. -/
  | selection (levels : Nat) (ts : List Token)
  /-- Of the arguments of a field, whose values may nest so many levels deep. -/
  | arguments (levels : Nat) (ts : List Token)
  /-- Of a literal that may nest so many levels deep. -/
  | literal (levels : Nat) (ts : List Token)
  /-- Of a type reference that may nest so many levels deep. -/
  | typeReference (levels : Nat) (ts : List Token)

namespace Call

/-- What is recorded in a call, and in those that it makes. -/
def diagnostics : Call → List Diagnostic
  | definition ts => (Reading.definition ts).diagnostics
  | declarations ts => (variableDefinitions ts).diagnostics
  | typeBody ts => (items .typeDefinition fieldDefinition maxItems ts.tail).diagnostics
  | selection levels ts => (selectionSet levels ts).diagnostics
  | arguments levels ts => (Reading.arguments (Reading.literal levels) ts).diagnostics
  | literal levels ts => (Reading.literal levels ts).diagnostics
  | typeReference levels ts => (Reading.typeReference levels ts).diagnostics

/-- **One call makes another.** -/
inductive Makes : Call → Call → Prop where
  /-- An anonymous query has a selection set. -/
  | anonymous {ts : List Token} (hbrace : nextKind ts = .opening .brace) :
      Makes (definition ts) (selection maxNesting ts)
  /-- An operation may have variables. -/
  | declarations {ts : List Token} {keyword : String} {kind : OperationKind}
      (hkeyword : nextKind ts = .name keyword)
      (hkind : OperationKind.ofKeyword? keyword = some kind)
      (hparen : nextKind (name? ts.tail).rest = .opening .paren) :
      Makes (definition ts) (declarations (name? ts.tail).rest)
  /-- An operation has a selection set. -/
  | selection {ts : List Token} {keyword : String} {kind : OperationKind}
      (hkeyword : nextKind ts = .name keyword)
      (hkind : OperationKind.ofKeyword? keyword = some kind)
      (hbrace : nextKind (variableDefinitions (name? ts.tail).rest).rest = .opening .brace) :
      Makes (definition ts) (selection maxNesting (variableDefinitions (name? ts.tail).rest).rest)
  /-- A type definition has a body. -/
  | typeBody {ts : List Token} {name : String} (hkeyword : nextKind ts = .name "type")
      (hname : nextKind ts.tail = .name name)
      (hbrace : nextKind ts.tail.tail = .opening .brace) :
      Makes (definition ts) (typeBody ts.tail.tail)
  /-- A declared variable may have a type. -/
  | variableType {ts us : List Token} {name : String} (hparen : nextKind ts = .opening .paren)
      (h : ItemAt .variableDefinitions variableDefinition maxItems ts.tail us)
      (hdollar : nextKind us = .dollar) (hname : nextKind us.tail = .name name)
      (hcolon : nextKind us.tail.tail = .colon) :
      Makes (declarations ts) (typeReference maxNesting us.tail.tail.tail)
  /-- A field of a type has a type. -/
  | fieldType {ts us : List Token} {name : String}
      (h : ItemAt .typeDefinition fieldDefinition maxItems ts.tail us)
      (hname : nextKind us = .name name)
      (hcolon : nextKind (argumentDefinitions us.tail).rest = .colon) :
      Makes (typeBody ts) (typeReference maxNesting (argumentDefinitions us.tail).rest.tail)
  /-- A list type has an element type. -/
  | element {levels : Nat} {ts : List Token} (hbracket : nextKind ts = .opening .bracket) :
      Makes (typeReference (levels + 1) ts) (typeReference levels ts.tail)
  /-- A field may have arguments. -/
  | arguments {levels : Nat} {ts us : List Token} {name : String}
      (h : ItemAt .selectionSet (field (Reading.literal levels) (selectionSet levels)) maxItems
        ts.tail us)
      (hname : nextKind us = .name name) (hparen : nextKind us.tail = .opening .paren) :
      Makes (selection (levels + 1) ts) (arguments levels us.tail)
  /-- A field may have a nested selection set. -/
  | nested {levels : Nat} {ts us : List Token} {name : String}
      (h : ItemAt .selectionSet (field (Reading.literal levels) (selectionSet levels)) maxItems
        ts.tail us)
      (hname : nextKind us = .name name)
      (hbrace : nextKind (Reading.arguments (Reading.literal levels) us.tail).rest
        = .opening .brace) :
      Makes (selection (levels + 1) ts)
        (selection levels (Reading.arguments (Reading.literal levels) us.tail).rest)
  /-- An argument has a value. -/
  | argument {levels : Nat} {ts us : List Token} {name : String}
      (hparen : nextKind ts = .opening .paren)
      (h : ItemAt .fieldArguments (Reading.argument (Reading.literal levels)) maxItems ts.tail us)
      (hname : nextKind us = .name name) (hcolon : nextKind us.tail = .colon) :
      Makes (arguments levels ts) (literal levels us.tail.tail)
  /-- A list has items. -/
  | item {levels : Nat} {ts us : List Token} (hbracket : nextKind ts = .opening .bracket)
      (h : ItemAt .listValue (fun ts => (Reading.literal levels ts).map .kept) maxItems ts.tail
        us) :
      Makes (literal (levels + 1) ts) (literal levels us)
  /-- A field of an object has a value. -/
  | member {levels : Nat} {ts us : List Token} {key : String}
      (hbrace : nextKind ts = .opening .brace)
      (h : ItemAt .objectValue (objectField (Reading.literal levels)) maxItems ts.tail us)
      (hname : nextKind us = .name key) (hcolon : nextKind us.tail = .colon) :
      Makes (literal (levels + 1) ts) (literal levels us.tail.tail)

/-- **What is recorded in a call that is made is recorded in the one that makes it.** -/
theorem Makes.isInfix_diagnostics {c c' : Call} (h : Makes c c') :
    c'.diagnostics <:+: c.diagnostics := by
  cases h with
  | @anonymous ts hbrace =>
    show (selectionSet maxNesting ts).diagnostics <:+: (Reading.definition ts).diagnostics
    rw [Reading.definition, hbrace]
    simp only
    rw [rootSelection, if_pos hbrace]
    exact List.infix_rfl
  | @declarations ts keyword kind hkeyword hkind hparen =>
    show (variableDefinitions _).diagnostics <:+: (Reading.definition ts).diagnostics
    rw [Reading.definition, hkeyword]
    simp only [hkind]
    exact (List.prefix_append _ _).isInfix.trans (List.suffix_append _ _).isInfix
  | @selection ts keyword kind hkeyword hkind hbrace =>
    show (selectionSet maxNesting _).diagnostics <:+: (Reading.definition ts).diagnostics
    rw [Reading.definition, hkeyword]
    simp only [hkind, operation, map_diagnostics, andThen_diagnostics, rootSelection, if_pos hbrace]
    exact (List.suffix_append _ _).isInfix.trans (List.suffix_append _ _).isInfix
  | @typeBody ts name hkeyword hname hbrace =>
    -- The keyword is tried as that of an operation first.
    have hkind : OperationKind.ofKeyword? "type" = none := by decide
    show (items _ _ _ _).diagnostics <:+: (Reading.definition ts).diagnostics
    rw [Reading.definition, hkeyword]
    simp only [hkind, if_true, typeDefinition, hname, if_pos hbrace]
    exact List.infix_rfl
  | @variableType ts us name hparen h hdollar hname hcolon =>
    have hrecorded := h.isInfix_diagnostics
    simp only [variableDefinition, hdollar, variableName, hname, andThen, if_pos hcolon,
      List.nil_append] at hrecorded
    show (Reading.typeReference _ _).diagnostics <:+: (variableDefinitions ts).diagnostics
    rw [variableDefinitions, if_pos hparen]
    exact hrecorded
  | fieldType h hname hcolon =>
    have hrecorded := h.isInfix_diagnostics
    simp only [fieldDefinition, hname, andThen, if_pos hcolon] at hrecorded
    exact (List.suffix_append _ _).isInfix.trans hrecorded
  | @element levels ts hbracket =>
    show _ <:+: (Reading.typeReference (levels + 1) ts).diagnostics
    rw [Reading.typeReference, hbracket]
    exact (List.prefix_append _ _).isInfix
  | arguments h hname hparen =>
    have hrecorded := h.isInfix_diagnostics
    simp only [field, hname, andThen_diagnostics] at hrecorded
    exact (List.prefix_append _ _).isInfix.trans hrecorded
  | nested h hname hbrace =>
    have hrecorded := h.isInfix_diagnostics
    simp only [field, hname, andThen_diagnostics, Reading.nested, if_pos hbrace] at hrecorded
    exact (List.suffix_append _ _).isInfix.trans hrecorded
  | @argument levels ts us name hparen h hname hcolon =>
    have hrecorded := h.isInfix_diagnostics
    simp only [Reading.argument, hname, if_pos hcolon] at hrecorded
    show _ <:+: (Reading.arguments (Reading.literal levels) ts).diagnostics
    rw [Reading.arguments, if_pos hparen]
    exact hrecorded
  | @item levels ts us hbracket h =>
    show _ <:+: (Reading.literal (levels + 1) ts).diagnostics
    rw [Reading.literal, hbracket]
    exact h.isInfix_diagnostics
  | @member levels ts us key hbrace h hname hcolon =>
    have hrecorded := h.isInfix_diagnostics
    simp only [objectField, hname, if_pos hcolon] at hrecorded
    show _ <:+: (Reading.literal (levels + 1) ts).diagnostics
    rw [Reading.literal, hbrace]
    exact hrecorded

/-- **The calls that are reached** in parsing a list of tokens. -/
inductive Reached (tokens : List Token) : Call → Prop where
  /-- The definitions of the document. -/
  | definition {us : List Token} (h : DefinitionAt maxItems tokens us) :
      Reached tokens (definition us)
  /-- What is called by a reached call. -/
  | made {c c' : Call} (h : Reached tokens c) (hmakes : Makes c c') : Reached tokens c'

/-- **What is recorded in a reached call is recorded in the parse.** -/
theorem Reached.isInfix_diagnostics {tokens : List Token} {c : Call} (h : Reached tokens c) :
    c.diagnostics <:+: (Parsed.ofTokens tokens).diagnostics := by
  induction h with
  | definition h => exact h.isInfix_diagnostics
  | made _ hmakes ih => exact hmakes.isInfix_diagnostics.trans ih

end Call

end GraphQuery
