import GraphQuery.Document.Json
import GraphQuery.Proofs.JsonText
import GraphQuery.Proofs.Entries

/-! # Documents are read back from JSON

Every document and every literal is read back from its JSON text as it was (`Json.readsBack`), with
all that malformed input leaves in it, and with the fields of an object in their order. No object
literal in it has two fields of one name, for they are a map (`Document.Keyed`, `Literal.Keyed`).

There are two halves to it. The tree of a node is `Readable`, so that its text gives the tree back;
and reading the tree gives the node back, if as many levels may be entered as the tree has. Both
halves go node by node, and each node needs to know of its parts only the same. -/

namespace GraphQuery

open Json

/-! ## Lists and optional parts -/

namespace Json

/-- Items that are each read back are read back together. -/
theorem mapM_map_of_forall {α β : Type} {write : α → β} {read : β → Option α} {xs : List α}
    (h : ∀ x ∈ xs, read (write x) = some x) : (xs.map write).mapM read = some xs := by
  induction xs with
  | nil => rfl
  | cons x xs ih =>
    have hx := h x List.mem_cons_self
    have hxs := ih fun y hy => h y (List.mem_cons_of_mem _ hy)
    simp [List.mapM_cons, hx, hxs]

section Items

variable {α : Type} {write : α → Json} {xs : List α}

/-- No item nests deeper than the items together. -/
theorem depth_le_depthItems_map (write : α → Json) {x : α} (h : x ∈ xs) :
    (write x).depth ≤ depthItems (xs.map write) := depth_le_depthItems (List.mem_map_of_mem h)

/-- **An array is read back** if its items are. -/
theorem list?_array {item : Nat → Json → Option α} {levels : Nat}
    (hlevels : (array (xs.map write)).depth ≤ levels)
    (hitem : ∀ x ∈ xs, ∀ levels, (write x).depth ≤ levels → item levels (write x) = some x) :
    list? item levels (array (xs.map write)) = some xs := by
  rw [depth] at hlevels
  obtain ⟨below, rfl⟩ : ∃ below, levels = below + 1 := ⟨levels - 1, by omega⟩
  refine mapM_map_of_forall fun x hx => hitem x hx below ?_
  have hdepth := depth_le_depthItems_map write hx
  omega

end Items

/-- An optional part that is there is read as such, unless it is written as null. -/
theorem optional?_some {α : Type} {read : Json → Option α} {json : Json} (h : json ≠ .null) :
    optional? read (some json) = (read json).map some := by
  cases json <;> first | rfl | exact absurd rfl h

end Json

/-! ## Type references -/

namespace TypeReference

theorem ofWord?_word (nullability : Nullability) :
    Nullability.ofWord? nullability.word = some nullability := by
  cases nullability <;> rfl

theorem toJson_ne_null (type : TypeReference) : type.toJson ≠ .null := by
  cases type with
  | named name nullability => simp [toJson]
  | list element nullability => cases element <;> simp [toJson]

theorem readable_toJson : (type : TypeReference) → type.toJson.Readable
  | named name nullability => by simp [toJson]
  | list none nullability => by simp [toJson]
  | list (some element) nullability => by simp [toJson, readable_toJson element]

/-- **A type reference is read back.** -/
theorem ofJson?_toJson : (type : TypeReference) → {levels : Nat} → type.toJson.depth ≤ levels →
    ofJson? levels type.toJson = some type
  | named name nullability, levels, h => by
    simp only [toJson, depth, depthMembers] at h
    obtain ⟨below, rfl⟩ : ∃ below, levels = below + 2 := ⟨levels - 2, by omega⟩
    simp [toJson, ofJson?, parts?, text?, choice?, ofWord?_word]
  | list none nullability, levels, h => by
    simp only [toJson, depth, depthMembers] at h
    obtain ⟨below, rfl⟩ : ∃ below, levels = below + 2 := ⟨levels - 2, by omega⟩
    simp [toJson, ofJson?, parts?, optional?, choice?, ofWord?_word]
  | list (some element) nullability, levels, h => by
    simp only [toJson, depth, depthMembers] at h
    obtain ⟨below, rfl⟩ : ∃ below, levels = below + 2 := ⟨levels - 2, by omega⟩
    have helement : ofJson? below element.toJson = some element := ofJson?_toJson element (by omega)
    simp [toJson, ofJson?, parts?, optional?_some element.toJson_ne_null, helement, choice?,
      ofWord?_word]

end TypeReference

/-! ## Literals -/

namespace Literal

/-- **The fields of every object in a literal have distinct names.** -/
inductive WellKeyed : Literal → Prop where
  /-- A list of such literals. -/
  | array {items : List Literal} (each : ∀ item ∈ items, WellKeyed item) : WellKeyed (.array items)
  /-- A truth value. -/
  | boolean (value : Bool) : WellKeyed (.boolean value)
  /-- A bare name. -/
  | enum (name : String) : WellKeyed (.enum name)
  /-- What is left of a malformed value. -/
  | illegal (text : String) : WellKeyed (.illegal text)
  /-- An integer. -/
  | int (digits : String) : WellKeyed (.int digits)
  /-- An object of such literals, under distinct names. -/
  | object {fields : List (String × Literal)} (distinct : Entries.DistinctKeys fields)
    (each : ∀ field ∈ fields, WellKeyed field.2) : WellKeyed (.object fields)
  /-- A string. -/
  | string (contents : String) : WellKeyed (.string contents)
  /-- A variable. -/
  | variableRef (name : String) : WellKeyed (.variableRef name)

/-- **A literal as a program can hold it**: the fields of its objects are maps. -/
abbrev Keyed := {literal : Literal // literal.WellKeyed}

theorem itemsToJson_eq (items : List Literal) : itemsToJson items = items.map toJson := by
  induction items with
  | nil => rfl
  | cons item rest ih => rw [itemsToJson, ih, List.map_cons]

theorem fieldsToJson_eq (fields : List (String × Literal)) :
    fieldsToJson fields = fields.map fun field => (field.1, field.2.toJson) := by
  induction fields with
  | nil => rfl
  | cons field rest ih => rw [fieldsToJson, ih, List.map_cons]

theorem Keyed.readable_toJson (literal : Keyed) : literal.val.toJson.Readable := by
  obtain ⟨literal, h⟩ := literal
  induction h with
  | array each ih => simpa [toJson, itemsToJson_eq] using ih
  | @object fields distinct each ih =>
    have hfields : (Json.object (fields.map fun field => (field.1, field.2.toJson))).Readable :=
      .object_map ih
    rw [toJson, fieldsToJson_eq]
    exact .object (List.forall_mem_singleton.2 hfields)
  | boolean | enum | illegal | int | string | variableRef => simp [toJson]

/-- **A literal is read back.** -/
theorem Keyed.ofJson?_toJson (literal : Keyed) {levels : Nat}
    (hlevels : literal.val.toJson.depth ≤ levels) :
    ofJson? levels literal.val.toJson = some literal.val := by
  obtain ⟨literal, h⟩ := literal
  dsimp only at hlevels ⊢
  induction h generalizing levels with
  | @array items each ih =>
    rw [toJson, itemsToJson_eq] at hlevels ⊢
    simp only [depth, depthMembers] at hlevels
    -- One level is for the tag, and one for the list under it.
    obtain ⟨below, rfl⟩ : ∃ below, levels = below + 2 := ⟨levels - 2, by omega⟩
    have hitems : (items.map toJson).mapM (ofJson? below) = some items := by
      refine mapM_map_of_forall fun item hitem => ih item hitem ?_
      have hdepth := depth_le_depthItems_map toJson hitem
      omega
    simp [ofJson?, hitems]
  | @object fields distinct each ih =>
    rw [toJson, fieldsToJson_eq] at hlevels ⊢
    simp only [depth, depthMembers] at hlevels
    obtain ⟨below, rfl⟩ : ∃ below, levels = below + 2 := ⟨levels - 2, by omega⟩
    have hfields : (fields.map fun field => (field.1, field.2.toJson)).mapM
        (fun member => (ofJson? below member.2).map fun value => (member.1, value))
          = some fields := by
      refine mapM_map_of_forall fun field hfield => ?_
      have hdepth := depth_le_depthMembers (List.mem_map_of_mem
        (f := fun field : String × Literal => (field.1, field.2.toJson)) hfield)
      have hvalue : ofJson? below field.2.toJson = some field.2 :=
        ih field hfield (Nat.le_trans hdepth (by omega))
      rw [hvalue]
      rfl
    simp [ofJson?, hfields, distinct.ofPairs_eq]
  | boolean | enum | illegal | int | string | variableRef =>
    simp only [toJson, depth, depthMembers] at hlevels
    obtain ⟨below, rfl⟩ : ∃ below, levels = below + 1 := ⟨levels - 1, by omega⟩
    simp [toJson, ofJson?, ofText?]

end Literal

/-! ## Fields -/

namespace Argument

/-- An argument with such a literal. -/
abbrev Keyed := {argument : Argument // argument.value.WellKeyed}

theorem Keyed.readable_toJson (argument : Keyed) : argument.val.toJson.Readable := by
  obtain ⟨argument, h⟩ := argument
  simpa [toJson] using Literal.Keyed.readable_toJson ⟨argument.value, h⟩

/-- **An argument is read back.** -/
theorem Keyed.ofJson?_toJson (argument : Keyed) {levels : Nat}
    (hlevels : argument.val.toJson.depth ≤ levels) :
    ofJson? levels argument.val.toJson = some argument.val := by
  obtain ⟨argument, h⟩ := argument
  simp only [toJson, depth, depthMembers] at hlevels
  obtain ⟨below, rfl⟩ : ∃ below, levels = below + 1 := ⟨levels - 1, by omega⟩
  have hbelow : argument.value.toJson.depth ≤ below := by omega
  have hvalue : Literal.ofJson? below argument.value.toJson = some argument.value :=
    Literal.Keyed.ofJson?_toJson ⟨argument.value, h⟩ hbelow
  simp [toJson, ofJson?, parts?, text?, hvalue]

end Argument

/-- **A selection set is read back** if its fields are. -/
theorem selections?_selectionsToJson {read : Json → Option Field} {write : Field → Json}
    {fields : List Field} (h : ∀ field ∈ fields, read (write field) = some field) :
    selections? read (selectionsToJson (fields.map write)) = some fields := by
  simp [selections?, selectionsToJson, parts?, mapM_map_of_forall h]

namespace Field

/-- **The fields of every object that a field has in its arguments have distinct names**, and so for
the fields selected from it. -/
inductive WellKeyed : Field → Prop where
  /-- A field. -/
  | mk {name : String} {arguments : List Argument} {selection : Option (List Field)}
    (values : ∀ argument ∈ arguments, argument.value.WellKeyed)
    (nested : ∀ fields, selection = some fields → ∀ field ∈ fields, WellKeyed field) :
    WellKeyed ⟨name, arguments, selection⟩

/-- **A field as a program can hold it.** -/
abbrev Keyed := {field : Field // field.WellKeyed}

theorem fieldsToJson_eq (fields : List Field) : fieldsToJson fields = fields.map toJson := by
  induction fields with
  | nil => rfl
  | cons field rest ih => rw [fieldsToJson, ih, List.map_cons]

theorem Keyed.readable_toJson (field : Keyed) : field.val.toJson.Readable := by
  obtain ⟨field, h⟩ := field
  induction h with
  | @mk name arguments selection values nested ih =>
    have harguments : ∀ argument ∈ arguments, argument.toJson.Readable :=
      fun argument hargument => Argument.Keyed.readable_toJson ⟨argument, values argument hargument⟩
    have hselection : (nestedToJson selection).Readable := by
      cases selection with
      | none => exact .null
      | some fields => simpa [nestedToJson, selectionsToJson, fieldsToJson_eq] using ih fields rfl
    simpa [toJson, hselection] using harguments

/-- The parts of a field are read back if its arguments and its nested selection are. -/
theorem ofParts?_object {nested : Json → Option SelectionSet} {levels : Nat} {name : String}
    {arguments : List Argument} {selection : Option (List Field)}
    (harguments : list? Argument.ofJson? levels (array (arguments.map Argument.toJson))
      = some arguments)
    (hselection : optional? nested (some (nestedToJson selection)) = some selection) :
    ofParts? nested levels (.object [("name", .string name),
        ("arguments", .array (arguments.map Argument.toJson)),
        ("selection_set", nestedToJson selection)])
      = some ⟨name, arguments, selection⟩ := by
  simp [ofParts?, parts?, text?, harguments, hselection]

/-- **A selected field is read back.** -/
theorem Keyed.ofTagged?_toJson (field : Keyed) {levels : Nat}
    (hlevels : field.val.toJson.depth ≤ levels) :
    ofTagged? levels field.val.toJson = some field.val := by
  obtain ⟨field, h⟩ := field
  dsimp only at hlevels ⊢
  induction h generalizing levels with
  | @mk name arguments selection values nested ih =>
    simp only [toJson, depth, depthMembers] at hlevels
    obtain ⟨below, rfl⟩ : ∃ below, levels = below + 2 := ⟨levels - 2, by omega⟩
    have harguments : list? Argument.ofJson? below (array (arguments.map Argument.toJson))
        = some arguments :=
      list?_array (by rw [depth]; omega) fun argument hargument levels hlevels =>
        Argument.Keyed.ofJson?_toJson ⟨argument, values argument hargument⟩ hlevels
    cases selection with
    | none =>
      -- Nothing is nested, so that it does not matter how many levels are left.
      rw [toJson]
      rcases below with _ | _ | below
      all_goals exact ofParts?_object harguments rfl
    | some fields =>
      rw [nestedToJson, fieldsToJson_eq, selectionsToJson] at hlevels
      simp only [depth, depthMembers] at hlevels
      obtain ⟨inner, rfl⟩ : ∃ inner, below = inner + 2 := ⟨below - 2, by omega⟩
      have hfields : ∀ field ∈ fields, ofTagged? inner field.toJson = some field := by
        intro field hfield
        have hdepth := depth_le_depthItems_map toJson hfield
        exact ih fields rfl field hfield (by omega)
      have hselection : optional? (selections? (ofTagged? inner))
          (some (nestedToJson (some fields))) = some (some fields) := by
        rw [nestedToJson, fieldsToJson_eq, optional?_some (by simp [selectionsToJson]),
          selections?_selectionsToJson hfields]
        rfl
      rw [toJson]
      exact ofParts?_object harguments hselection

end Field

/-- **The selection set of an operation is read back.** -/
theorem selectionSet?_selectionsToJson {fields : List Field} (h : ∀ field ∈ fields, field.WellKeyed)
    {levels : Nat} (hlevels : (selectionsToJson (Field.fieldsToJson fields)).depth ≤ levels) :
    selectionSet? levels (selectionsToJson (Field.fieldsToJson fields)) = some fields := by
  rw [Field.fieldsToJson_eq] at hlevels ⊢
  simp only [selectionsToJson, depth, depthMembers] at hlevels
  obtain ⟨below, rfl⟩ : ∃ below, levels = below + 2 := ⟨levels - 2, by omega⟩
  refine selections?_selectionsToJson fun field hfield =>
    Field.Keyed.ofTagged?_toJson ⟨field, h field hfield⟩ ?_
  have hdepth := depth_le_depthItems_map Field.toJson hfield
  dsimp only
  omega

theorem readable_selectionsToJson {fields : List Field} (h : ∀ field ∈ fields, field.WellKeyed) :
    (selectionsToJson (Field.fieldsToJson fields)).Readable := by
  simpa [selectionsToJson, Field.fieldsToJson_eq] using
    fun field hfield => Field.Keyed.readable_toJson ⟨field, h field hfield⟩

/-! ## Definitions -/

namespace VariableDefinition

theorem readable_toJson (definition : VariableDefinition) : definition.toJson.Readable := by
  cases htype : definition.type with
  | none => simp [toJson, htype]
  | some type => simp [toJson, htype, type.readable_toJson]

/-- **A declared variable is read back.** -/
theorem ofJson?_toJson (definition : VariableDefinition) {levels : Nat}
    (hlevels : definition.toJson.depth ≤ levels) :
    ofJson? levels definition.toJson = some definition := by
  obtain ⟨name, type⟩ := definition
  simp only [toJson, depth, depthMembers] at hlevels
  obtain ⟨below, rfl⟩ : ∃ below, levels = below + 1 := ⟨levels - 1, by omega⟩
  cases type with
  | none => simp [toJson, ofJson?, parts?, text?, optional?]
  | some type =>
    simp only [Option.map_some, Option.getD_some] at hlevels
    have htype : TypeReference.ofJson? below type.toJson = some type :=
      type.ofJson?_toJson (by omega)
    simp [toJson, ofJson?, parts?, text?, optional?_some type.toJson_ne_null, htype]

end VariableDefinition

namespace Operation

/-- An operation that selects such fields. -/
abbrev Keyed := {operation : Operation // ∀ field ∈ operation.selection, field.WellKeyed}

theorem Keyed.readable_toJson (operation : Keyed) : operation.val.toJson.Readable := by
  obtain ⟨operation, h⟩ := operation
  have hname : (optionalText operation.name).Readable := by
    cases hname : operation.name <;> simp [optionalText]
  have hdeclared : ∀ definition ∈ operation.declared, definition.toJson.Readable :=
    fun definition _ => definition.readable_toJson
  simpa [toJson, OperationKind.toJson, hname, readable_selectionsToJson h] using hdeclared

/-- **An operation is read back.** -/
theorem Keyed.ofJson?_toJson (operation : Keyed) {levels : Nat}
    (hlevels : operation.val.toJson.depth ≤ levels) :
    ofJson? levels operation.val.toJson = some operation.val := by
  obtain ⟨operation, h⟩ := operation
  simp only [toJson] at hlevels
  rw [depth] at hlevels
  simp only [depthMembers] at hlevels
  obtain ⟨below, rfl⟩ : ∃ below, levels = below + 1 := ⟨levels - 1, by omega⟩
  have hname : optional? text? (some (optionalText operation.name)) = some operation.name := by
    cases operation.name <;> rfl
  have hdeclared : list? VariableDefinition.ofJson? below
      (array (operation.declared.map VariableDefinition.toJson)) = some operation.declared :=
    list?_array (by omega) fun definition _ levels hlevels => definition.ofJson?_toJson hlevels
  have hselection : selectionSet? below
      (selectionsToJson (Field.fieldsToJson operation.selection)) = some operation.selection :=
    selectionSet?_selectionsToJson h (by omega)
  simp [toJson, ofJson?, parts?, OperationKind.toJson, choice?, hname, hdeclared, hselection]

end Operation

namespace TypeDefinition

theorem readable_toJson (definition : TypeDefinition) : definition.toJson.Readable := by
  simp [toJson]

/-- **A type definition is read back.** -/
theorem ofJson?_toJson (definition : TypeDefinition) {levels : Nat}
    (hlevels : definition.toJson.depth ≤ levels) :
    ofJson? levels definition.toJson = some definition := by
  simp only [toJson] at hlevels
  rw [depth] at hlevels
  simp only [depthMembers] at hlevels
  obtain ⟨below, rfl⟩ : ∃ below, levels = below + 1 := ⟨levels - 1, by omega⟩
  have hfields : list? fieldName? below
      (array (definition.fields.map fun name => .object [("name", .string name)]))
        = some definition.fields := by
    refine list?_array (by omega) fun name _ levels hlevels => ?_
    rw [depth] at hlevels
    obtain ⟨below, rfl⟩ : ∃ below, levels = below + 1 := ⟨levels - 1, by omega⟩
    simp [fieldName?, parts?, text?]
  simp [toJson, ofJson?, parts?, text?, hfields]

end TypeDefinition

/-! ## Documents -/

namespace Definition

/-- The fields of every object in a definition have distinct names. -/
def WellKeyed : Definition → Prop
  | operation op => ∀ field ∈ op.selection, field.WellKeyed
  | typeDefinition _ => True

/-- A definition as a program can hold it. -/
abbrev Keyed := {definition : Definition // definition.WellKeyed}

theorem Keyed.readable_toJson (definition : Keyed) : definition.val.toJson.Readable := by
  obtain ⟨definition, h⟩ := definition
  cases definition with
  | operation op => simpa [toJson] using Operation.Keyed.readable_toJson ⟨op, h⟩
  | typeDefinition type => simpa [toJson] using type.readable_toJson

/-- **A definition is read back.** -/
theorem Keyed.ofJson?_toJson (definition : Keyed) {levels : Nat}
    (hlevels : definition.val.toJson.depth ≤ levels) :
    ofJson? levels definition.val.toJson = some definition.val := by
  obtain ⟨definition, h⟩ := definition
  cases definition with
  | operation op =>
    simp only [toJson, depth, depthMembers] at hlevels
    obtain ⟨below, rfl⟩ : ∃ below, levels = below + 1 := ⟨levels - 1, by omega⟩
    have hbelow : op.toJson.depth ≤ below := by omega
    have hoperation : Operation.ofJson? below op.toJson = some op :=
      Operation.Keyed.ofJson?_toJson ⟨op, h⟩ hbelow
    simp [toJson, ofJson?, hoperation]
  | typeDefinition type =>
    simp only [toJson, depth, depthMembers] at hlevels
    obtain ⟨below, rfl⟩ : ∃ below, levels = below + 1 := ⟨levels - 1, by omega⟩
    have htype : TypeDefinition.ofJson? below type.toJson = some type :=
      type.ofJson?_toJson (by omega)
    simp [toJson, ofJson?, htype]

end Definition

namespace Document

/-- The fields of every object in a document have distinct names. -/
def WellKeyed (document : Document) : Prop :=
  ∀ definition ∈ document.definitions, definition.WellKeyed

/-- **A document as a program can hold it**: the fields of every object in it are a map. -/
abbrev Keyed := {document : Document // document.WellKeyed}

theorem Keyed.readable_toJson (document : Keyed) : document.val.toJson.Readable := by
  obtain ⟨document, h⟩ := document
  have hdefinitions : ∀ definition ∈ document.definitions, definition.toJson.Readable :=
    fun definition hdefinition =>
      Definition.Keyed.readable_toJson ⟨definition, h definition hdefinition⟩
  simpa [toJson] using hdefinitions

/-- **A document is read back** from its tree. -/
theorem Keyed.ofJson?_toJson (document : Keyed) {levels : Nat}
    (hlevels : document.val.toJson.depth ≤ levels) :
    ofJson? levels document.val.toJson = some document.val := by
  obtain ⟨document, h⟩ := document
  simp only [toJson] at hlevels
  rw [depth] at hlevels
  simp only [depthMembers] at hlevels
  obtain ⟨below, rfl⟩ : ∃ below, levels = below + 1 := ⟨levels - 1, by omega⟩
  have hdefinitions : list? Definition.ofJson? below
      (array (document.definitions.map Definition.toJson)) = some document.definitions :=
    list?_array (by omega) fun definition hdefinition levels hlevels =>
      Definition.Keyed.ofJson?_toJson ⟨definition, h definition hdefinition⟩ hlevels
  simp [toJson, ofJson?, parts?, hdefinitions]

end Document

/-! ## Texts -/

/-- **Documents and literals are read back from their JSON texts**, if as many levels may be entered
as they have. -/
theorem Json.readsBack :
    (∀ (document : Document.Keyed) (levels : Nat), document.val.toJson.depth ≤ levels →
      (parse? document.val.toJson.compact).bind (Document.ofJson? levels) = some document.val) ∧
    (∀ (literal : Literal.Keyed) (levels : Nat), literal.val.toJson.depth ≤ levels →
      (parse? literal.val.toJson.compact).bind (Literal.ofJson? levels) = some literal.val) := by
  constructor
  · intro document levels hlevels
    rw [document.readable_toJson.parse?_compact]
    exact document.ofJson?_toJson hlevels
  · intro literal levels hlevels
    rw [literal.readable_toJson.parse?_compact]
    exact literal.ofJson?_toJson hlevels

/-- A literal with characters to escape and fields that are not in the order of their names. -/
def oddLiteral : Literal :=
  .object [("z\"", .illegal "\\ \u0007"), ("", .variableRef ""),
    ("a", .array [.int "-0", .enum "\n"])]

theorem wellKeyed_oddLiteral : oddLiteral.WellKeyed := by
  have harray : Literal.WellKeyed (.array [.int "-0", .enum "\n"]) :=
    .array (List.forall_mem_cons.2 ⟨.int _, List.forall_mem_singleton.2 (.enum _)⟩)
  refine .object (by simp [Entries.DistinctKeys]) (List.forall_mem_cons.2 ⟨.illegal _, ?_⟩)
  exact List.forall_mem_cons.2 ⟨.variableRef _, List.forall_mem_singleton.2 harray⟩

/-- A document with a variable that has no name and a list type that has no element, with the same
field twice, and with a type that has no fields. -/
def oddDocument : Document :=
  ⟨[.operation ⟨.subscription, none, [⟨"", some (.list none .nonNull)⟩, ⟨"x", none⟩],
      [⟨"f", [⟨"a", oddLiteral⟩], some []⟩, ⟨"f", [], none⟩]⟩,
    .typeDefinition ⟨"T", []⟩]⟩

theorem wellKeyed_oddDocument : oddDocument.WellKeyed := by
  have hfirst : Field.WellKeyed ⟨"f", [⟨"a", oddLiteral⟩], some []⟩ := by
    refine .mk ?_ ?_
    · simpa using wellKeyed_oddLiteral
    · rintro fields ⟨⟩ field hfield
      cases hfield
  have hsecond : Field.WellKeyed ⟨"f", [], none⟩ := by
    refine .mk ?_ ?_
    · simp
    · rintro fields ⟨⟩
  simp [Document.WellKeyed, oddDocument, Definition.WellKeyed, hfirst, hsecond]

/-- Odd documents and odd literals are read back, too. -/
theorem Json.readsBack_odd :
    (parse? oddDocument.toJson.compact).bind (Document.ofJson? maxDepth) = some oddDocument ∧
    (parse? oddLiteral.toJson.compact).bind (Literal.ofJson? maxDepth) = some oddLiteral :=
  ⟨Json.readsBack.1 ⟨oddDocument, wellKeyed_oddDocument⟩ maxDepth (by decide),
    Json.readsBack.2 ⟨oddLiteral, wellKeyed_oddLiteral⟩ maxDepth (by decide)⟩

end GraphQuery
