import GraphQuery.Proofs.Acceptance
import GraphQuery.Proofs.Calls

/-! # Slots

A **slot** is a place in a document where a construct of one kind may stand: a selection set, the
arguments of a field, a literal, the variables of an operation, or the body of a type. It is given
by the document that it makes of what stands there (`Derivation.Slot`).

Whether the document is valid depends on its other parts, and then on whether what stands in the
slot is sound at the level of the slot (`Slot.isValid_of_sound`). What stands before the slot is
read as it is written, and so the reader of the slot's kind is called on what stands there
(`Slot.exists_reached`). -/

namespace GraphQuery.Derivation

open Reading

/-! ## Sound parts -/

section Sound

variable {shape : Delimiter} {ι : Type} {levels : Nat}

/-- A group is **sound** if it fits and its items are sound. -/
def Group.Sound (sound : ι → Prop) (g : Group shape ι) : Prop := g.Fits ∧ ∀ a ∈ g.items, sound a

/-- A literal is sound if it fits and nests within so many levels. -/
def Value.Sound (levels : Nat) (v : Value) : Prop := v.Fits ∧ v.overflow levels = []

/-- An argument or a field of an object is sound if its value is. -/
def Labelled.Sound (levels : Nat) (l : Labelled Value) : Prop := l.value.Sound levels

/-- A field is sound if it fits and nests within so many levels. -/
def Field.Sound (levels : Nat) (f : Field) : Prop := f.Fits ∧ f.overflow levels = []

/-- A selection set is sound if it fits and nests within so many levels. -/
def Selection.Sound (levels : Nat) (s : Selection) : Prop :=
  s.Fits ∧ (∀ f ∈ s.items, f.Fits) ∧ s.overflow levels = []

/-- A declared variable is sound if its type nests within the limit. -/
def Variable.Sound (v : Variable) : Prop := v.overflow = []

/-- A field of a type is sound if what it takes fits, and its type nests within the limit. -/
def FieldType.Sound (f : FieldType) : Prop :=
  (∀ e ∈ f.takes, e.tokens.length ≤ maxItems) ∧ f.type.overflow maxNesting = []

/-- A definition is sound if it fits and nests within the limit. -/
def Definition.Sound (d : Definition) : Prop := d.Fits ∧ d.overflow = []

/-- **A valid document** keeps within both limits. -/
def Document.IsValid (d : Document) : Prop := d.Fits ∧ d.overflow = []

theorem Value.sound_list {g : Group .bracket Value} :
    (list g).Sound (levels + 1) ↔ g.Sound (Sound levels) := by
  rw [Sound, fits_list, overflow, List.flatMap_eq_nil_iff, and_assoc, ← forall₂_and]
  rfl

theorem Value.sound_object {g : Group .brace (Labelled Value)} :
    (object g).Sound (levels + 1) ↔ g.Sound (Labelled.Sound levels) := by
  rw [Sound, fits_object, overflow, List.flatMap_eq_nil_iff, and_assoc, ← forall₂_and]
  rfl

theorem Field.sound_iff {f : Field} : f.Sound levels
    ↔ (∀ g ∈ f.arguments, g.Sound (Labelled.Sound levels))
      ∧ ∀ s ∈ f.selection, Selection.Sound levels s := by
  obtain ⟨place, name, arguments, selection⟩ := f
  rw [Sound, fits_iff, overflow, List.append_eq_nil_iff, List.flatMap_eq_nil_iff]
  cases arguments <;> cases selection <;>
    simp [argumentItems, Group.Sound, Labelled.Sound, Value.Sound, Selection.Sound, forall_and]
      <;> tauto

theorem Selection.sound_succ {s : Selection} :
    Selection.Sound (levels + 1) s ↔ Group.Sound (Field.Sound levels) s := by
  rw [Sound, overflow_succ, List.flatMap_eq_nil_iff, ← forall₂_and]
  rfl

theorem Definition.sound_anonymous {s : Selection} :
    (anonymous s).Sound ↔ Selection.Sound maxNesting s := by
  rw [Sound, Fits, overflow, and_assoc]
  rfl

theorem Definition.sound_operation {kind : OperationKind} {keyword : Span}
    {name : Option (Span × String)} {declared : Option (Group .paren Variable)} {s : Selection} :
    (operation kind keyword name declared s).Sound
      ↔ (∀ g ∈ declared, g.Sound Variable.Sound) ∧ Selection.Sound maxNesting s := by
  rw [Sound, Fits, overflow, List.append_eq_nil_iff, List.flatMap_eq_nil_iff]
  cases declared <;> simp [Group.Sound, Variable.Sound, Selection.Sound] <;> tauto

theorem Definition.sound_typeDefinition {keyword place : Span} {name : String}
    {fields : Group .brace FieldType} :
    (typeDefinition keyword place name fields).Sound ↔ fields.Sound FieldType.Sound := by
  rw [Sound, Fits, overflow, List.flatMap_eq_nil_iff, and_assoc, ← forall₂_and]
  rfl

theorem Document.isValid_iff {d : Document} :
    d.IsValid ↔ d.definitions.length ≤ maxItems ∧ ∀ e ∈ d.definitions, e.Sound := by
  rw [IsValid, Fits, overflow, List.flatMap_eq_nil_iff, and_assoc, ← forall₂_and]
  rfl

end Sound

/-! ## The rest of a group -/

/-- **The rest of a group**: what is around one of its items. -/
structure Around (shape : Delimiter) (ι : Type) where
  /-- The place of the opening bracket. -/
  opening : Span
  /-- What is before the item. -/
  before : List (Round ι)
  /-- What is after the item. -/
  after : List (Round ι)
  /-- The place of the closing bracket. -/
  closing : Span

namespace Around

variable {shape : Delimiter} {ι α : Type}

/-- The group with the item. -/
def group (r : Around shape ι) (a : ι) : Group shape ι :=
  ⟨r.opening, r.before ++ .item a :: r.after, r.closing⟩

/-- The tokens after the item, and those after the group. -/
def tokensAfter (tokens : ι → List Token) (r : Around shape ι) (rest : List Token) : List Token :=
  r.after.flatMap (Round.tokens tokens) ++ ⟨.closing shape, r.closing⟩ :: rest

/-- Whether the rest of a group is sound. -/
def Sound (sound : ι → Prop) (r : Around shape ι) : Prop :=
  r.before.length + r.after.length + 1 < maxItems
    ∧ (∀ b ∈ itemsOf r.before, sound b) ∧ ∀ b ∈ itemsOf r.after, sound b

theorem sound_group {sound : ι → Prop} {r : Around shape ι} {a : ι} :
    (r.group a).Sound sound ↔ r.Sound sound ∧ sound a := by
  have hitems : (r.group a).items = itemsOf r.before ++ a :: itemsOf r.after := by
    rw [group, Group.items, itemsOf, List.filterMap_append]
    rfl
  have hlen : (r.group a).rounds.length = r.before.length + r.after.length + 1 := by
    simp [group]
    omega
  rw [Group.Sound, Group.Fits, hlen, hitems, Sound]
  simp only [List.mem_append, List.mem_cons, or_imp, forall_and, forall_eq]
  tauto

theorem tokens_group (tokens : ι → List Token) (r : Around shape ι) (a : ι) (rest : List Token) :
    ((r.group a).tokens tokens ++ rest).tail
      = r.before.flatMap (Round.tokens tokens) ++ (tokens a ++ r.tokensAfter tokens rest) := by
  simp [Group.tokens, group, tokensAfter, Round.tokens]

end Around

/-! ## Slots -/

/-- **The kinds of constructs** that slots are for. -/
inductive Part where
  /-- A selection set. -/
  | selection
  /-- The arguments of a field. -/
  | arguments
  /-- A literal. -/
  | literal
  /-- The variables of an operation. -/
  | declarations
  /-- The body of a type. -/
  | typeBody

namespace Part

/-- The derivations of a kind of constructs. -/
@[reducible] def Tree : Part → Type
  | selection => Selection
  | arguments => Group .paren (Labelled Value)
  | literal => Value
  | declarations => Group .paren Variable
  | typeBody => Group .brace FieldType

/-- The tokens of a construct. -/
def tokens : (part : Part) → part.Tree → List Token
  | selection, s => Group.tokens Field.tokens s
  | arguments, g => g.tokens (Labelled.tokens Value.tokens)
  | literal, v => Value.tokens v
  | declarations, g => g.tokens Variable.tokens
  | typeBody, g => g.tokens FieldType.tokens

/-- Whether a construct is sound where so many levels are left. -/
def Sound : (part : Part) → (levels : Nat) → part.Tree → Prop
  | selection, levels, s => Selection.Sound levels s
  | arguments, levels, g => g.Sound (Labelled.Sound levels)
  | literal, levels, v => Value.Sound levels v
  | declarations, _, g => g.Sound Variable.Sound
  | typeBody, _, g => g.Sound FieldType.Sound

/-- The call of the reader of a construct. -/
def call : (part : Part) → (levels : Nat) → List Token → Call
  | selection, levels, ts => .selection levels ts
  | arguments, levels, ts => .arguments levels ts
  | literal, levels, ts => .literal levels ts
  | declarations, _, ts => .declarations ts
  | typeBody, _, ts => .typeBody ts

end Part

/-- **A slot** for a kind of constructs, where so many levels are left. It is the document that it
makes of what stands in it. -/
inductive Slot : (part : Part) → (levels : Nat) → (part.Tree → Document) → Prop where
  /-- The selection set of an anonymous query. -/
  | anonymous (before after : List Definition) :
      Slot .selection maxNesting fun s => ⟨before ++ .anonymous s :: after⟩
  /-- The selection set of an operation. -/
  | operation (before after : List Definition) (kind : OperationKind) (keyword : Span)
      (name : Option (Span × String)) (declared : Option (Group .paren Variable)) :
      Slot .selection maxNesting fun s =>
        ⟨before ++ .operation kind keyword name declared s :: after⟩
  /-- The variables of an operation. -/
  | declarations (before after : List Definition) (kind : OperationKind) (keyword : Span)
      (name : Option (Span × String)) (selection : Selection) :
      Slot .declarations maxNesting fun g =>
        ⟨before ++ .operation kind keyword name (some g) selection :: after⟩
  /-- The body of a type. -/
  | typeBody (before after : List Definition) (keyword place : Span) (name : String) :
      Slot .typeBody maxNesting fun g =>
        ⟨before ++ .typeDefinition keyword place name g :: after⟩
  /-- The selection set of a field. -/
  | nested {levels : Nat} {fill : Selection → Document}
      (h : Slot .selection (levels + 1) fill) (around : Around .brace Field) (place : Span)
      (name : String) (arguments : Option (Group .paren (Labelled Value))) :
      Slot .selection levels fun s => fill (around.group ⟨place, name, arguments, some s⟩)
  /-- The arguments of a field. -/
  | arguments {levels : Nat} {fill : Selection → Document}
      (h : Slot .selection (levels + 1) fill) (around : Around .brace Field) (place : Span)
      (name : String) (selection : Option Selection) :
      Slot .arguments levels fun g => fill (around.group ⟨place, name, some g, selection⟩)
  /-- The value of an argument. -/
  | argument {levels : Nat} {fill : Group .paren (Labelled Value) → Document}
      (h : Slot .arguments levels fill) (around : Around .paren (Labelled Value)) (place : Span)
      (name : String) (colon : Span) :
      Slot .literal levels fun v => fill (around.group ⟨place, name, colon, v⟩)
  /-- An item of a list. -/
  | item {levels : Nat} {fill : Value → Document} (h : Slot .literal (levels + 1) fill)
      (around : Around .bracket Value) :
      Slot .literal levels fun v => fill (.list (around.group v))
  /-- The value of a field of an object. -/
  | member {levels : Nat} {fill : Value → Document} (h : Slot .literal (levels + 1) fill)
      (around : Around .brace (Labelled Value)) (place : Span) (key : String) (colon : Span) :
      Slot .literal levels fun v => fill (.object (around.group ⟨place, key, colon, v⟩))

variable {part : Part} {levels : Nat} {fill : part.Tree → Document}

/-- Whether a document is sound around one of its definitions. -/
def Document.SoundAround (before after : List Definition) : Prop :=
  before.length + after.length + 1 ≤ maxItems ∧ (∀ e ∈ before, e.Sound) ∧ ∀ e ∈ after, e.Sound

theorem Document.isValid_append {before after : List Definition} {d : Definition} :
    IsValid ⟨before ++ d :: after⟩ ↔ SoundAround before after ∧ d.Sound := by
  have hlen : (before ++ d :: after).length = before.length + after.length + 1 := by
    simp
    omega
  rw [isValid_iff, hlen, SoundAround]
  simp only [List.mem_append, List.mem_cons, or_imp, forall_and, forall_eq]
  tauto

/-- **Whether a document is valid** depends on what is around a slot, and then on whether what
stands in the slot is sound. -/
theorem Slot.exists_isValid_iff (h : Slot part levels fill) :
    ∃ outside : Prop, ∀ x, (fill x).IsValid ↔ outside ∧ part.Sound levels x := by
  -- From the outside in: what is around an inner slot is what is around the outer one, and more.
  induction h with
  | anonymous before after =>
    refine ⟨Document.SoundAround before after, fun s => ?_⟩
    rw [Document.isValid_append, Definition.sound_anonymous]
    rfl
  | operation before after kind keyword name declared =>
    refine ⟨Document.SoundAround before after ∧ ∀ g ∈ declared, g.Sound Variable.Sound,
      fun s => ?_⟩
    rw [Document.isValid_append, Definition.sound_operation, and_assoc]
    rfl
  | declarations before after kind keyword name selection =>
    refine ⟨Document.SoundAround before after ∧ Selection.Sound maxNesting selection,
      fun g => ?_⟩
    rw [Document.isValid_append, Definition.sound_operation]
    simp only [Option.mem_some_iff, forall_eq', Part.Sound]
    tauto
  | typeBody before after keyword place name =>
    refine ⟨Document.SoundAround before after, fun g => ?_⟩
    rw [Document.isValid_append, Definition.sound_typeDefinition]
    rfl
  | @nested levels fill _ around place name arguments ih =>
    obtain ⟨outside, hfill⟩ := ih
    refine ⟨(outside ∧ around.Sound (Field.Sound levels))
      ∧ ∀ g ∈ arguments, g.Sound (Labelled.Sound levels), fun s => ?_⟩
    rw [hfill, Part.Sound, Selection.sound_succ, Around.sound_group, Field.sound_iff]
    simp only [Option.mem_some_iff, forall_eq', and_assoc, Part.Sound]
  | @arguments levels fill _ around place name selection ih =>
    obtain ⟨outside, hfill⟩ := ih
    refine ⟨(outside ∧ around.Sound (Field.Sound levels))
      ∧ ∀ s ∈ selection, Selection.Sound levels s, fun g => ?_⟩
    rw [hfill, Part.Sound, Selection.sound_succ, Around.sound_group, Field.sound_iff]
    simp only [Option.mem_some_iff, forall_eq', Part.Sound]
    tauto
  | @argument levels fill _ around place name colon ih =>
    obtain ⟨outside, hfill⟩ := ih
    refine ⟨outside ∧ around.Sound (Labelled.Sound levels), fun v => ?_⟩
    rw [hfill, Part.Sound, Around.sound_group, and_assoc]
    rfl
  | @item levels fill _ around ih =>
    obtain ⟨outside, hfill⟩ := ih
    refine ⟨outside ∧ around.Sound (Value.Sound levels), fun v => ?_⟩
    rw [hfill, Part.Sound, Value.sound_list, Around.sound_group, and_assoc]
    rfl
  | @member levels fill _ around place key colon ih =>
    obtain ⟨outside, hfill⟩ := ih
    refine ⟨outside ∧ around.Sound (Labelled.Sound levels), fun v => ?_⟩
    rw [hfill, Part.Sound, Value.sound_object, Around.sound_group, and_assoc]
    rfl

/-- What stands in a slot of a valid document is sound. -/
theorem Slot.sound (h : Slot part levels fill) {x : part.Tree} (hvalid : (fill x).IsValid) :
    part.Sound levels x := by
  obtain ⟨outside, hfill⟩ := h.exists_isValid_iff
  exact ((hfill x).1 hvalid).2

/-- **A slot of a valid document may be filled** with anything that is sound. -/
theorem Slot.isValid_of_sound (h : Slot part levels fill) {x y : part.Tree}
    (hvalid : (fill x).IsValid) (hsound : part.Sound levels y) : (fill y).IsValid := by
  obtain ⟨outside, hfill⟩ := h.exists_isValid_iff
  exact (hfill y).2 ⟨((hfill x).1 hvalid).1, hsound⟩

/-! ## Sound items are read as they are written -/

/-- A field that is sound keeps its meaning. -/
theorem Field.cut_eq_meaning {f : Field} (h : f.overflow levels = []) :
    f.cut levels = f.meaning := by
  obtain ⟨harguments, hselection⟩ := List.append_eq_nil_iff.1 h
  rw [List.flatMap_eq_nil_iff] at harguments
  rw [cut, meaning_eq, List.map_congr_left fun l hl => by
    rw [Value.cut_eq_meaning (harguments l hl)]]
  cases hs : f.selection with
  | none => rfl
  | some inner =>
    rw [hs] at hselection
    rw [Option.map_some, Option.map_some, Selection.cut_eq_meaning hselection]

section ReadsItems

variable {α ι : Type} {construct : Construct} {item : List Token → Reading (Item α)}
  {tokens : ι → List Token} {value value' : ι → α} {faults : ι → List Diagnostic}
  {continues : Token.Kind → Prop} {as : List ι}

/-- Items of which nothing is recorded are read back with their values. -/
theorem ReadsItems.quiet (h : ReadsItems construct item tokens value faults continues as)
    (hvalue : ∀ a ∈ as, value a = value' a) (hfaults : ∀ a ∈ as, faults a = []) :
    ReadsItems construct item tokens value' (fun _ => []) continues as where
  head := h.head
  read a ha ts hts := by rw [h.read a ha ts hts, hvalue a ha, hfaults a ha]
  comma := h.comma
  closing := h.closing

end ReadsItems

namespace Value.Sound

variable {v : Value}

theorem cut_eq (h : v.Sound levels) : v.cut levels = v.meaning := cut_eq_meaning h.2

theorem faults_eq (h : v.Sound levels) : v.faults levels = [] := by rw [faults, h.2, List.map_nil]

theorem literal_tokens (h : v.Sound levels) (rest : List Token) :
    literal levels (v.tokens ++ rest) = ⟨v.cut levels, v.faults levels, rest⟩ :=
  Derivation.literal_tokens h.1 (by simp [h.2]) rest

end Value.Sound

/-- The items of a list that are sound are read back. -/
theorem readsItems_soundList {vs : List Value} (h : ∀ v ∈ vs, v.Sound levels) :
    ReadsItems .listValue (fun ts => (literal levels ts).map .kept) Value.tokens Value.meaning
      (fun _ => []) (fun _ => False) vs :=
  (readsItems_list fun v hv => (h v hv).literal_tokens).quiet (fun v hv => (h v hv).cut_eq)
    fun v hv => (h v hv).faults_eq

/-- The fields of an object that are sound are read back. -/
theorem readsItems_soundObject {ls : List (Labelled Value)} (h : ∀ l ∈ ls, l.Sound levels) :
    ReadsItems .objectValue (objectField (literal levels)) (Labelled.tokens Value.tokens)
      (fun l => (l.name, l.value.meaning)) (fun _ => []) (fun _ => False) ls :=
  (readsItems_object fun l hl => Value.Sound.literal_tokens (h l hl)).quiet
    (fun l hl => by rw [Value.Sound.cut_eq (h l hl)]) fun l hl => Value.Sound.faults_eq (h l hl)

/-- Arguments that are sound are read back. -/
theorem readsItems_soundArguments {ls : List (Labelled Value)} (h : ∀ l ∈ ls, l.Sound levels) :
    ReadsItems .fieldArguments (argument (literal levels)) (Labelled.tokens Value.tokens)
      (fun l => ⟨l.name, l.value.meaning⟩) (fun _ => []) (fun _ => False) ls := by
  have hwhole : ∀ l ∈ ls, ∀ s ∈ l.value.overflow levels, SkipsWhole s :=
    fun l hl => by simp [(h l hl).2]
  have hreads := readsItems_arguments (fun l hl => (h l hl).1) hwhole
  exact hreads.quiet (fun l hl => by rw [Value.Sound.cut_eq (h l hl)])
    fun l hl => Value.Sound.faults_eq (h l hl)

/-- A selection set that is sound is read back. -/
theorem Selection.Sound.selectionSet_tokens {s : Selection} (h : Selection.Sound levels s)
    (rest : List Token) :
    selectionSet levels (s.tokens Field.tokens ++ rest)
      = ⟨s.cut levels, (s.overflow levels).map Subtree.fault, rest⟩ :=
  Derivation.selectionSet_tokens h.1 h.2.1 (by simp [h.2.2]) rest

/-- Fields that are sound are read back. -/
theorem readsItems_soundFields {fs : List Field} (h : ∀ f ∈ fs, f.Sound levels) :
    ReadsItems .selectionSet (field (literal levels) (selectionSet levels)) Field.tokens
      Field.meaning (fun _ => []) ContinuesField fs := by
  have hselection : ∀ f ∈ fs, ∀ s ∈ f.selection, Selection.Sound levels s :=
    fun f hf => (Field.sound_iff.1 (h f hf)).2
  have hwhole : ∀ f ∈ fs, ∀ t ∈ f.overflow levels, SkipsWhole t :=
    fun f hf => by simp [(h f hf).2]
  have hreads := readsItems_fields (fun f hf => (h f hf).1) hwhole
    fun f hf s hs => (hselection f hf s hs).selectionSet_tokens
  exact hreads.quiet (fun f hf => Field.cut_eq_meaning (h f hf).2)
    fun f hf => by rw [Field.faults, (h f hf).2, List.map_nil]

/-- Variables that are sound are read back. -/
theorem readsItems_soundVariables {vs : List Variable} (h : ∀ v ∈ vs, v.Sound) :
    ReadsItems .variableDefinitions variableDefinition Variable.tokens Variable.meaning
      (fun _ => []) ContinuesVariable vs := by
  have hdeep : ∀ v ∈ vs, v.overflow = [] := h
  have hwhole : ∀ v ∈ vs, ∀ s ∈ v.overflow, SkipsWhole s := fun v hv => by simp [hdeep v hv]
  exact (readsItems_variables hwhole).quiet (fun v hv => Variable.cut_eq_meaning (h v hv))
    fun v hv => by rw [hdeep v hv, List.map_nil]

/-- Fields of a type that are sound are read back. -/
theorem readsItems_soundFieldTypes {fs : List FieldType} (h : ∀ f ∈ fs, f.Sound) :
    ReadsItems .typeDefinition fieldDefinition FieldType.tokens FieldType.name (fun _ => [])
      (· = .bang) fs := by
  have hwhole : ∀ f ∈ fs, ∀ s ∈ f.type.overflow maxNesting, SkipsWhole s :=
    fun f hf => by simp [(h f hf).2]
  have hreads := readsItems_fieldTypes (fun f hf => (h f hf).1) hwhole
  exact hreads.quiet (fun _ _ => rfl) fun f hf => by rw [(h f hf).2, List.map_nil]

/-! ## Slots are reached -/

section Reached

variable {α ι : Type} {construct : Construct} {shape : Delimiter}
  {item : List Token → Reading (Item α)} {tokens : ι → List Token} {value : ι → α}
  {faults : ι → List Diagnostic} {continues : Token.Kind → Prop} {rounds : List (Round ι)}
  {rest us : List Token} {budget : Nat}

/-- An item stands where it does after more rounds, too. -/
theorem ReadsItems.itemAt_append
    (h : ReadsItems construct item tokens value faults continues (itemsOf rounds))
    (hrest : ¬ continues (nextKind rest)) (hat : ItemAt construct item budget rest us) :
    ItemAt construct item (rounds.length + budget)
      (rounds.flatMap (Round.tokens tokens) ++ rest) us := by
  induction rounds with
  | nil => simpa using hat
  | cons round rounds ih =>
    rw [List.length_cons, Nat.add_right_comm, List.flatMap_cons, List.append_assoc]
    cases round with
    | comma place => exact .comma rfl (ih h)
    | item a =>
      have hmore := h.mono (List.subset_cons_self a (itemsOf rounds))
      have hread := h.read a List.mem_cons_self _ (hmore.not_continues hrest)
      obtain ⟨hends, hcomma⟩ := h.nextKind_append List.mem_cons_self
        (rounds.flatMap (Round.tokens tokens) ++ rest)
      exact .later hends hcomma (fun remark => by simp [Round.tokens, hread])
        (by rw [Round.tokens, hread]; exact ih hmore)

/-- An item of a group stands after the others that are before it. -/
theorem Around.itemAt {r : Around shape ι}
    (h : ReadsItems construct item tokens value faults continues (itemsOf r.before))
    (hlen : r.before.length < maxItems) (a : ι) (rest : List Token)
    (hends : construct.endsAt (nextKind (tokens a ++ r.tokensAfter tokens rest)) = false)
    (hcomma : nextKind (tokens a ++ r.tokensAfter tokens rest) ≠ .comma)
    (hcontinues : ¬ continues (nextKind (tokens a ++ r.tokensAfter tokens rest))) :
    ItemAt construct item maxItems ((r.group a).tokens tokens ++ rest).tail
      (tokens a ++ r.tokensAfter tokens rest) := by
  obtain ⟨more, hmore⟩ := Nat.exists_eq_add_of_lt hlen
  rw [Around.tokens_group, hmore, Nat.add_assoc]
  exact h.itemAt_append hcontinues (.here hends hcomma)

/-- A definition stands where it does after other ones, too. -/
theorem definitionAt_append {before : List Definition} (hbefore : ∀ d ∈ before, d.Sound)
    (h : DefinitionAt budget rest us) :
    DefinitionAt (before.length + budget) (before.flatMap Definition.tokens ++ rest) us := by
  induction before with
  | nil => simpa using h
  | cons d ds ih =>
    obtain ⟨hfits, hdeep⟩ := hbefore d List.mem_cons_self
    rw [List.length_cons, Nat.add_right_comm, List.flatMap_cons, List.append_assoc]
    refine .later (nextKind_definition_ne_eof d _) ?_
    rw [definition_tokens hfits (by simp [hdeep])]
    exact ih fun e he => hbefore e (List.mem_cons_of_mem d he)

/-- A definition of a document that is sound around it is reached. -/
theorem Document.reached_definition {before after : List Definition}
    (hsound : SoundAround before after) (d : Definition) (rest : List Token) :
    Call.Reached ((Document.mk (before ++ d :: after)).tokens ++ rest)
      (.definition (d.tokens ++ (after.flatMap Definition.tokens ++ rest))) := by
  obtain ⟨hlen, hbefore, -⟩ := hsound
  obtain ⟨more, hmore⟩ := Nat.exists_eq_add_of_lt (show before.length < maxItems by omega)
  have hhere : DefinitionAt (more + 1) (d.tokens ++ (after.flatMap Definition.tokens ++ rest)) _ :=
    .here (nextKind_definition_ne_eof d _)
  have hat := definitionAt_append hbefore hhere
  rw [← Nat.add_assoc, ← hmore] at hat
  rw [tokens, List.flatMap_append, List.flatMap_cons, List.append_assoc, List.append_assoc]
  exact .definition hat

end Reached

/-- After the name of an operation its variables are next, or its selection set. -/
theorem Definition.rest_name? (kind : OperationKind) (keyword : Span)
    (name : Option (Span × String)) (declared : Option (Group .paren Variable))
    (selection : Selection) (rest : List Token) :
    (name? ((operation kind keyword name declared selection).tokens ++ rest).tail).rest
      = declared.elim [] (Group.tokens Variable.tokens)
        ++ (selection.tokens Field.tokens ++ rest) := by
  have hnext : ∀ text, nextKind (declared.elim [] (Group.tokens Variable.tokens)
      ++ (selection.tokens Field.tokens ++ rest)) ≠ .name text := by
    intro text
    cases declared <;> simp [Option.elim]
  rw [tokens, List.cons_append, List.tail_cons, List.append_assoc, List.append_assoc,
    name?_tokens name hnext]

/-- After its variables, the selection set of an operation is next. -/
theorem Definition.rest_variableDefinitions {declared : Option (Group .paren Variable)}
    (hdeclared : ∀ g ∈ declared, g.Sound Variable.Sound) (selection : Selection)
    (rest : List Token) :
    (variableDefinitions (declared.elim [] (Group.tokens Variable.tokens)
        ++ (selection.tokens Field.tokens ++ rest))).rest
      = selection.tokens Field.tokens ++ rest := by
  have hwhole : ∀ v ∈ declared.elim [] Group.items, ∀ s ∈ v.overflow, SkipsWhole s := by
    intro v hv
    cases declared with
    | none => simp at hv
    | some g => simp [show v.overflow = [] from (hdeclared g rfl).2 v hv]
  rw [variableDefinitions_tokens (fun g hg => (hdeclared g hg).1) hwhole (by simp)]

/-- After its arguments, the selection set of a field is next. -/
theorem Field.rest_arguments {arguments : Option (Group .paren (Labelled Value))}
    (harguments : ∀ g ∈ arguments, g.Sound (Labelled.Sound levels)) (selection : Selection)
    (rest : List Token) :
    (Reading.arguments (Reading.literal levels)
        (arguments.elim [] (Group.tokens (Labelled.tokens Value.tokens))
          ++ (selection.tokens Field.tokens ++ rest))).rest
      = selection.tokens Field.tokens ++ rest := by
  let f : Field := ⟨⟨0, 0⟩, "", arguments, none⟩
  obtain ⟨hfits, hdeep⟩ : f.Sound levels := sound_iff.2 ⟨harguments, by simp [f]⟩
  have hnone := List.flatMap_eq_nil_iff.1 (List.append_eq_nil_iff.1 hdeep).1
  have hwhole : ∀ l ∈ f.argumentItems, ∀ s ∈ l.value.overflow levels, SkipsWhole s :=
    fun l hl => by simp [hnone l hl]
  have hnext : nextKind (selection.tokens Field.tokens ++ rest) ≠ .opening .paren := by simp
  exact congrArg Reading.rest (arguments_tokens hfits hwhole fun _ => hnext)

/-- The rest of a group is shorter than the group may be. -/
theorem Around.Sound.length_before_lt {shape : Delimiter} {ι : Type} {sound : ι → Prop}
    {r : Around shape ι} (h : r.Sound sound) : r.before.length < maxItems := by
  have hlen := h.1
  omega

/-- **A slot is reached**: whatever is put into a slot of a valid document, the reader of the
slot's kind is called on it. -/
theorem Slot.exists_reached (h : Slot part levels fill) {x : part.Tree}
    (hvalid : (fill x).IsValid) (rest : List Token) :
    ∃ after, ∀ y, Call.Reached ((fill y).tokens ++ rest)
      (part.call levels (part.tokens y ++ after)) := by
  -- From the outside in: what is put into an inner slot is a part of what is put into the outer
  -- one, and there it stands behind sound items.
  induction h with
  | anonymous before after =>
    obtain ⟨hsound, -⟩ := Document.isValid_append.1 hvalid
    exact ⟨_, fun s =>
      (Document.reached_definition hsound (.anonymous s) rest).made (.anonymous rfl)⟩
  | operation before after kind keyword name declared =>
    obtain ⟨hsound, hdefinition⟩ := Document.isValid_append.1 hvalid
    obtain ⟨hdeclared, -⟩ := Definition.sound_operation.1 hdefinition
    refine ⟨after.flatMap Definition.tokens ++ rest, fun s => ?_⟩
    have hrest := Definition.rest_variableDefinitions hdeclared s
      (after.flatMap Definition.tokens ++ rest)
    rw [← Definition.rest_name? kind keyword name declared s] at hrest
    have hmade := (Document.reached_definition hsound
      (.operation kind keyword name declared s) rest).made
      (.selection rfl (OperationKind.ofKeyword?_keyword kind) (by rw [hrest]; rfl))
    rwa [hrest] at hmade
  | declarations before after kind keyword name selection =>
    obtain ⟨hsound, -⟩ := Document.isValid_append.1 hvalid
    refine ⟨selection.tokens Field.tokens ++ (after.flatMap Definition.tokens ++ rest),
      fun g => ?_⟩
    have hrest := Definition.rest_name? kind keyword name (some g) selection
      (after.flatMap Definition.tokens ++ rest)
    have hmade := (Document.reached_definition hsound
      (.operation kind keyword name (some g) selection) rest).made
      (.declarations rfl (OperationKind.ofKeyword?_keyword kind) (by rw [hrest]; rfl))
    rwa [hrest] at hmade
  | typeBody before after keyword place name =>
    obtain ⟨hsound, -⟩ := Document.isValid_append.1 hvalid
    exact ⟨_, fun g => (Document.reached_definition hsound (.typeDefinition keyword place name g)
      rest).made (.typeBody rfl rfl rfl)⟩
  | @nested levels fill h around place name arguments ih =>
    obtain ⟨after, hreached⟩ := ih hvalid
    obtain ⟨haround, hfield⟩ := Around.sound_group.1 (Selection.sound_succ.1 (h.sound hvalid))
    obtain ⟨harguments, -⟩ := Field.sound_iff.1 hfield
    refine ⟨around.tokensAfter Field.tokens after, fun s => ?_⟩
    let f : Field := ⟨place, name, arguments, some s⟩
    have hrest : (Reading.arguments (Reading.literal levels)
        (f.tokens ++ around.tokensAfter Field.tokens after).tail).rest
          = s.tokens Field.tokens ++ around.tokensAfter Field.tokens after := by
      rw [Field.tokens_eq, List.cons_append, List.tail_cons, List.append_assoc]
      exact Field.rest_arguments harguments s _
    have hat := Around.itemAt (readsItems_soundFields haround.2.1) haround.length_before_lt
      f after (by rw [Field.tokens_eq]; rfl) (by rw [Field.tokens_eq]; simp)
      (by rw [Field.tokens_eq]; simp [ContinuesField])
    have hmade := (hreached _).made (.nested hat (by rw [Field.tokens_eq]; rfl)
      (by rw [hrest]; rfl))
    rwa [hrest] at hmade
  | @arguments levels fill h around place name selection ih =>
    obtain ⟨after, hreached⟩ := ih hvalid
    obtain ⟨haround, -⟩ := Around.sound_group.1 (Selection.sound_succ.1 (h.sound hvalid))
    refine ⟨selection.elim [] (Group.tokens Field.tokens)
      ++ around.tokensAfter Field.tokens after, fun g => ?_⟩
    have hat := Around.itemAt (readsItems_soundFields haround.2.1) haround.length_before_lt
      ⟨place, name, some g, selection⟩ after (by rw [Field.tokens_eq]; rfl)
      (by rw [Field.tokens_eq]; simp) (by rw [Field.tokens_eq]; simp [ContinuesField])
    have hmade := (hreached _).made (.arguments hat (by rw [Field.tokens_eq]; rfl)
      (by rw [Field.tokens_eq]; rfl))
    rw [Field.tokens_eq] at hmade
    simpa [Part.call, Part.tokens] using hmade
  | @argument levels fill h around place name colon ih =>
    obtain ⟨after, hreached⟩ := ih hvalid
    obtain ⟨haround, -⟩ := Around.sound_group.1 (h.sound hvalid)
    exact ⟨_, fun v => (hreached _).made (.argument rfl
      (Around.itemAt (readsItems_soundArguments haround.2.1) haround.length_before_lt
        ⟨place, name, colon, v⟩ after rfl (by simp [Labelled.tokens]) id) rfl rfl)⟩
  | @item levels fill h around ih =>
    obtain ⟨after, hreached⟩ := ih hvalid
    obtain ⟨haround, -⟩ := Around.sound_group.1 (Value.sound_list.1 (h.sound hvalid))
    refine ⟨around.tokensAfter Value.tokens after, fun v => ?_⟩
    obtain ⟨t, ts, htokens, hends, hcomma⟩ := exists_head_value v
    have hlist := hreached (.list (around.group v))
    rw [Part.tokens, Value.tokens_list] at hlist
    exact hlist.made (.item rfl
      (Around.itemAt (readsItems_soundList haround.2.1) haround.length_before_lt v after
        (by rwa [htokens]) (by rwa [htokens]) id))
  | @member levels fill h around place key colon ih =>
    obtain ⟨after, hreached⟩ := ih hvalid
    obtain ⟨haround, -⟩ := Around.sound_group.1 (Value.sound_object.1 (h.sound hvalid))
    refine ⟨around.tokensAfter (Labelled.tokens Value.tokens) after, fun v => ?_⟩
    have hobject := hreached (.object (around.group ⟨place, key, colon, v⟩))
    rw [Part.tokens, Value.tokens_object] at hobject
    exact hobject.made (.member rfl
      (Around.itemAt (readsItems_soundObject haround.2.1) haround.length_before_lt
        ⟨place, key, colon, v⟩ after rfl (by simp [Labelled.tokens]) id) rfl rfl)

end GraphQuery.Derivation
