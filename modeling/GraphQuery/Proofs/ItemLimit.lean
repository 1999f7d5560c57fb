import GraphQuery.Proofs.Slots

/-! # The limit on items

A construct is read in rounds, one for each item, of which there are `maxItems`. The definitions of
a document may use them all, for a document is over when its tokens are. Every other construct
needs one more round for its closing bracket, and that round is missing when there are as many
items as rounds: the construct keeps all of them, and is reported all the same. With more items
than rounds, the first ones are kept and what is left is read by the construct around. -/

namespace GraphQuery.Derivation

open Reading

/-! ## Groups without commas -/

section Groups

variable {α ι : Type} {construct : Construct} {shape : Delimiter}
  {item : List Token → Reading (Item α)} {tokens : ι → List Token} {value : ι → α}
  {faults : ι → List Diagnostic} {continues : Token.Kind → Prop} {xs : List ι}

/-- A group of items without commas. -/
def Group.ofItems (opening closing : Span) (xs : List ι) : Group shape ι :=
  ⟨opening, xs.map .item, closing⟩

@[simp] theorem itemsOf_map_item (xs : List ι) : itemsOf (xs.map Round.item) = xs := by
  induction xs with
  | nil => rfl
  | cons x xs ih => rw [List.map_cons, itemsOf_item, ih]

@[simp] theorem Group.items_ofItems (opening closing : Span) (xs : List ι) :
    (ofItems opening closing xs : Group shape ι).items = xs :=
  itemsOf_map_item xs

/-- A group without commas is sound if its items are and if there are less of them than rounds. -/
theorem Group.sound_ofItems {sound : ι → Prop} {opening closing : Span} :
    (ofItems opening closing xs : Group shape ι).Sound sound
      ↔ xs.length < maxItems ∧ ∀ x ∈ xs, sound x := by
  rw [Sound, Fits, items_ofItems, ofItems, List.length_map]

/-- **What is left of a group** without commas after as many items as there are rounds, and what
follows the group. -/
def leftover (shape : Delimiter) (tokens : ι → List Token) (closing : Span) (xs : List ι)
    (after : List Token) : List Token :=
  (xs.drop maxItems).flatMap tokens ++ ⟨.closing shape, closing⟩ :: after

/-- Items are rounds. -/
theorem flatMap_map_item (tokens : ι → List Token) (xs : List ι) :
    (xs.map Round.item).flatMap (Round.tokens tokens) = xs.flatMap tokens :=
  List.flatMap_map ..

/-- The tokens of a group without commas, in two parts. -/
theorem Group.tokens_ofItems (tokens : ι → List Token) (opening closing : Span) (xs : List ι)
    (after : List Token) :
    ((ofItems opening closing xs : Group shape ι).tokens tokens ++ after).tail
      = ((xs.take maxItems).map Round.item).flatMap (Round.tokens tokens)
        ++ leftover shape tokens closing xs after := by
  have hparts : xs.flatMap tokens
      = (xs.take maxItems).flatMap tokens ++ (xs.drop maxItems).flatMap tokens := by
    rw [← List.flatMap_append, List.take_append_drop]
  rw [ofItems, Group.tokens, List.cons_append, List.tail_cons, flatMap_map_item,
    flatMap_map_item, leftover, hparts]
  simp

/-- **With too few rounds** for a group, as many items are kept as there are rounds. -/
theorem ReadsItems.items_ofItems
    (h : ReadsItems construct item tokens value faults continues xs)
    (hlen : maxItems ≤ xs.length) (hshape : construct.shape = shape) (opening closing : Span)
    (after : List Token) :
    items construct item maxItems
        ((Group.ofItems opening closing xs : Group shape ι).tokens tokens ++ after).tail
      = ⟨⟨(xs.take maxItems).map value, none⟩,
          (xs.take maxItems).flatMap faults ++ [.tooManyItems construct.describe
            (nextToken (leftover shape tokens closing xs after))],
          leftover shape tokens closing xs after⟩ := by
  subst hshape
  have hpart : ∀ {ys : List ι}, ys ⊆ xs → ReadsItems construct item tokens value faults continues
      (itemsOf (ys.map Round.item)) := by
    intro ys hys
    rw [itemsOf_map_item]
    exact h.mono hys
  have hleft : ¬ continues (nextKind (leftover construct.shape tokens closing xs after)) := by
    rw [leftover, ← flatMap_map_item]
    exact (hpart (List.drop_subset _ _)).not_continues h.closing
  have hrounds : ((xs.take maxItems).map Round.item).length + 0 = maxItems := by
    rw [List.length_map, List.length_take, Nat.add_zero, Nat.min_eq_left hlen]
  have hread := (hpart (List.take_subset maxItems xs)).items_append hleft 0
  rw [hrounds] at hread
  rw [Group.tokens_ofItems, hread, items_zero, itemsOf_map_item]
  simp

end Groups

/-! ## Constructs in slots -/

section Slots

variable {ι α β : Type} {construct : Construct} {shape : Delimiter}

/-- **How a construct keeps to the limit** on items, where its items are `xs`, without commas
between them: `fill` is the slot for the construct, in a document that `rest` follows, `call` is
the call of its reader, `read` what the reader reads, and `make` what it makes of items. -/
structure KeepsToLimit (construct : Construct) (tokens : ι → List Token)
    (fill : Group shape ι → Document) (call : List Token → Call)
    (read : List Token → Reading β) (make : List ι → β) (opening closing : Span) (xs : List ι)
    (rest : List Token) : Prop where
  /-- With less items than the limit, the document is read as it is written. -/
  within : xs.length < maxItems →
    Parsed.ofTokens ((fill (.ofItems opening closing xs)).tokens ++ rest)
      = ⟨(fill (.ofItems opening closing xs)).meaning, []⟩
  /-- The construct is read, and with less items than the limit it keeps them all. Otherwise it
  keeps as many as the limit, and it is reported that it exceeds the limit. -/
  kept : ∃ after,
    Call.Reached ((fill (.ofItems opening closing xs)).tokens ++ rest)
      (call ((Group.ofItems opening closing xs : Group shape ι).tokens tokens ++ after))
    ∧ read ((Group.ofItems opening closing xs : Group shape ι).tokens tokens ++ after)
      = if xs.length < maxItems then ⟨make xs, [], after⟩
        else ⟨make (xs.take maxItems),
          [.tooManyItems construct.describe
            (nextToken (leftover shape tokens closing xs after))],
          leftover shape tokens closing xs after⟩
  /-- What is reported on the construct is reported on the document. -/
  reported : maxItems ≤ xs.length → ∃ next, .tooManyItems construct.describe next
    ∈ (Parsed.ofTokens ((fill (.ofItems opening closing xs)).tokens ++ rest)).diagnostics

/-- **A valid document** is read as it is written. -/
theorem Document.IsValid.ofTokens_eq {d : Document} (h : d.IsValid) {rest : List Token}
    (hrest : nextKind rest = .eof) : Parsed.ofTokens (d.tokens ++ rest) = ⟨d.meaning, []⟩ := by
  obtain ⟨hfits, hdeep⟩ := h
  rw [Parsed.ofTokens, document_tokens hfits (by simp [hdeep]) hrest, cut_eq_meaning hdeep, hdeep]
  rfl

/-- A construct keeps to the limit if its slot is reached, and if its reader reads its items. -/
theorem keepsToLimit {tokens : ι → List Token} {fill : Group shape ι → Document}
    {call : List Token → Call} {read : List Token → Reading β} {make : List ι → β}
    {opening closing : Span} {xs : List ι} {rest : List Token}
    {item : List Token → Reading (Item α)} {value : ι → α} {continues : Token.Kind → Prop}
    (f : Items α → β) (hrest : nextKind rest = .eof)
    (hvalid : xs.length < maxItems → (fill (.ofItems opening closing xs)).IsValid)
    (hreads : ReadsItems construct item tokens value (fun _ => []) continues xs)
    (hshape : construct.shape = shape)
    (hreached : ∃ after, ∀ g, Call.Reached ((fill g).tokens ++ rest)
      (call (g.tokens tokens ++ after)))
    (hread : ∀ g : Group shape ι, ∀ ts, read (g.tokens tokens ++ ts)
      = (items construct item maxItems (g.tokens tokens ++ ts).tail).map f)
    (hcall : ∀ ts, (call ts).diagnostics = (read ts).diagnostics)
    (hmake : ∀ ys, ys <+: xs → f ⟨ys.map value, none⟩ = make ys) :
    KeepsToLimit construct tokens fill call read make opening closing xs rest := by
  obtain ⟨after, hreached⟩ := hreached
  have hbeyond (hlen : maxItems ≤ xs.length) :
      read ((Group.ofItems opening closing xs : Group shape ι).tokens tokens ++ after)
        = ⟨make (xs.take maxItems),
          [.tooManyItems construct.describe
            (nextToken (leftover shape tokens closing xs after))],
          leftover shape tokens closing xs after⟩ := by
    rw [hread, hreads.items_ofItems hlen hshape, ← hmake _ (List.take_prefix _ _)]
    simp [Reading.map]
  refine ⟨fun hlen => (hvalid hlen).ofTokens_eq hrest, ⟨after, hreached _, ?_⟩, fun hlen => ?_⟩
  · by_cases hlen : xs.length < maxItems
    · have hitems : ReadsItems construct item tokens value (fun _ => []) continues
          (Group.ofItems opening closing xs : Group shape ι).items := by
        rwa [Group.items_ofItems]
      have hfits : (Group.ofItems opening closing xs : Group shape ι).Fits := by
        rwa [Group.Fits, Group.ofItems, List.length_map]
      rw [if_pos hlen, hread, hitems.items_group hfits hshape, Group.items_ofItems,
        ← hmake _ List.prefix_rfl]
      simp [Reading.map]
    · rw [if_neg hlen]
      exact hbeyond (Nat.le_of_not_lt hlen)
  · -- What is recorded in a reached call is recorded in the parse.
    refine ⟨nextToken (leftover shape tokens closing xs after),
      (hreached _).isInfix_diagnostics.subset ?_⟩
    rw [hcall, hbeyond hlen]
    exact List.mem_singleton_self _

/-- **A construct obeys the limit** in a slot: it keeps to it if the document is valid without any
item in the construct, and with any one of the items alone, and if the items are admitted. -/
def ObeysLimit (construct : Construct) (tokens : ι → List Token) (admits : List ι → Prop)
    (fill : Group shape ι → Document) (call : List Token → Call)
    (read : List Token → Reading β) (make : List ι → β) (rest : List Token) : Prop :=
  ∀ (opening closing : Span) (xs : List ι), (fill (.ofItems opening closing [])).IsValid →
    (∀ x ∈ xs, (fill (.ofItems opening closing [x])).IsValid) → admits xs →
    KeepsToLimit construct tokens fill call read make opening closing xs rest

/-- An item is sound that may be the only one of a sound group. -/
theorem Group.sound_of_ofItems {sound : ι → Prop} {opening closing : Span} {x : ι}
    (h : (ofItems opening closing [x] : Group shape ι).Sound sound) : sound x :=
  (Group.sound_ofItems.1 h).2 x List.mem_cons_self

/-- Selection sets obey the limit. -/
theorem Slot.selection_obeysLimit {levels : Nat} {fill : Selection → Document}
    (h : Slot .selection levels fill) {rest : List Token} (hrest : nextKind rest = .eof) :
    ObeysLimit .selectionSet Field.tokens (fun _ => True) fill (.selection levels)
      (selectionSet levels) (List.map Field.meaning) rest := by
  intro opening closing xs hempty hitems _
  cases levels with
  | zero => exact absurd (h.sound hempty).2.2 (by simp [Selection.overflow])
  | succ levels =>
    have hsound : ∀ x ∈ xs, x.Sound levels := fun x hx =>
      Group.sound_of_ofItems (Selection.sound_succ.1 (h.sound (hitems x hx)))
    refine keepsToLimit Items.kept hrest (fun hlen => h.isValid_of_sound hempty ?_)
      (readsItems_soundFields hsound) rfl (h.exists_reached hempty rest) (fun _ _ => rfl)
      (fun _ => rfl) fun _ _ => rfl
    exact Selection.sound_succ.2 (Group.sound_ofItems.2 ⟨hlen, hsound⟩)

/-- The arguments of fields obey the limit. -/
theorem Slot.arguments_obeysLimit {levels : Nat} {fill : Group .paren (Labelled Value) → Document}
    (h : Slot .arguments levels fill) {rest : List Token} (hrest : nextKind rest = .eof) :
    ObeysLimit .fieldArguments (Labelled.tokens Value.tokens) (fun _ => True) fill
      (.arguments levels) (Reading.arguments (literal levels))
      (List.map fun l => ⟨l.name, l.value.meaning⟩) rest := by
  intro opening closing xs hempty hitems _
  have hsound : ∀ x ∈ xs, x.Sound levels := fun x hx =>
    Group.sound_of_ofItems (h.sound (hitems x hx))
  refine keepsToLimit Items.kept hrest (fun hlen => h.isValid_of_sound hempty ?_)
    (readsItems_soundArguments hsound) rfl (h.exists_reached hempty rest) (fun _ _ => rfl)
    (fun _ => rfl) fun _ _ => rfl
  exact Group.sound_ofItems.2 ⟨hlen, hsound⟩

/-- Lists obey the limit. -/
theorem Slot.list_obeysLimit {levels : Nat} {fill : Value → Document}
    (h : Slot .literal levels fill) {rest : List Token} (hrest : nextKind rest = .eof) :
    ObeysLimit .listValue Value.tokens (fun _ => True) (fun g => fill (.list g))
      (.literal levels) (literal levels) (fun vs => .array (vs.map Value.meaning)) rest := by
  intro opening closing xs hempty hitems _
  cases levels with
  | zero => exact absurd (h.sound hempty).2 (by simp [Value.overflow])
  | succ levels =>
    have hsound : ∀ x ∈ xs, x.Sound levels := fun x hx =>
      Group.sound_of_ofItems (Value.sound_list.1 (h.sound (hitems x hx)))
    obtain ⟨after, hreached⟩ := h.exists_reached hempty rest
    refine keepsToLimit (fun vs => .array vs.kept) hrest
      (fun hlen => h.isValid_of_sound hempty ?_) (readsItems_soundList hsound) rfl
      ⟨after, fun g => ?_⟩ (fun _ _ => rfl) (fun _ => rfl) fun _ _ => rfl
    · exact Value.sound_list.2 (Group.sound_ofItems.2 ⟨hlen, hsound⟩)
    · rw [← Value.tokens_list]
      exact hreached (.list g)

/-- Objects of distinct keys obey the limit. -/
theorem Slot.object_obeysLimit {levels : Nat} {fill : Value → Document}
    (h : Slot .literal levels fill) {rest : List Token} (hrest : nextKind rest = .eof) :
    ObeysLimit .objectValue (Labelled.tokens Value.tokens) (fun ls => (ls.map Labelled.name).Nodup)
      (fun g => fill (.object g)) (.literal levels) (literal levels)
      (fun ls => .object (ls.map fun l => (l.name, l.value.meaning))) rest := by
  intro opening closing xs hempty hitems hdistinct
  cases levels with
  | zero => exact absurd (h.sound hempty).2 (by simp [Value.overflow])
  | succ levels =>
    have hsound : ∀ x ∈ xs, x.Sound levels := fun x hx =>
      Group.sound_of_ofItems (Value.sound_object.1 (h.sound (hitems x hx)))
    obtain ⟨after, hreached⟩ := h.exists_reached hempty rest
    refine keepsToLimit objectLiteral hrest (fun hlen => h.isValid_of_sound hempty ?_)
      (readsItems_soundObject hsound) rfl ⟨after, fun g => ?_⟩ (fun _ _ => rfl) (fun _ => rfl)
      fun ys hys => ?_
    · exact Value.sound_object.2 (Group.sound_ofItems.2 ⟨hlen, hsound⟩)
    · rw [← Value.tokens_object]
      exact hreached (.object g)
    · -- Of distinct keys, none is written twice.
      have hkeys : Entries.DistinctKeys (ys.map fun l => (l.name, l.value.meaning)) := by
        rw [Entries.DistinctKeys, Entries.keys, List.map_map]
        exact (hys.sublist.map Labelled.name).nodup hdistinct
      rw [objectLiteral, Entries.DistinctKeys.ofPairs_eq hkeys]

/-- The variables of operations obey the limit. -/
theorem Slot.declarations_obeysLimit {levels : Nat} {fill : Group .paren Variable → Document}
    (h : Slot .declarations levels fill) {rest : List Token} (hrest : nextKind rest = .eof) :
    ObeysLimit .variableDefinitions Variable.tokens (fun _ => True) fill .declarations
      variableDefinitions (List.map Variable.meaning) rest := by
  intro opening closing xs hempty hitems _
  have hsound : ∀ x ∈ xs, x.Sound := fun x hx =>
    Group.sound_of_ofItems (h.sound (hitems x hx))
  refine keepsToLimit Items.kept hrest (fun hlen => h.isValid_of_sound hempty ?_)
    (readsItems_soundVariables hsound) rfl (h.exists_reached hempty rest) (fun _ _ => rfl)
    (fun _ => rfl) fun _ _ => rfl
  exact Group.sound_ofItems.2 ⟨hlen, hsound⟩

/-- The bodies of types obey the limit. -/
theorem Slot.typeBody_obeysLimit {levels : Nat} {fill : Group .brace FieldType → Document}
    (h : Slot .typeBody levels fill) {rest : List Token} (hrest : nextKind rest = .eof) :
    ObeysLimit .typeDefinition FieldType.tokens (fun _ => True) fill .typeBody
      (fun ts => (items .typeDefinition fieldDefinition maxItems ts.tail).map Items.kept)
      (List.map FieldType.name) rest := by
  intro opening closing xs hempty hitems _
  have hsound : ∀ x ∈ xs, x.Sound := fun x hx =>
    Group.sound_of_ofItems (h.sound (hitems x hx))
  refine keepsToLimit Items.kept hrest (fun hlen => h.isValid_of_sound hempty ?_)
    (readsItems_soundFieldTypes hsound) rfl (h.exists_reached hempty rest) (fun _ _ => rfl)
    (fun _ => rfl) fun _ _ => rfl
  exact Group.sound_ofItems.2 ⟨hlen, hsound⟩

end Slots

/-! ## Documents -/

/-- **A document of too many definitions** keeps as many as there are rounds. -/
theorem Document.ofTokens_eq_take {d : Document} (hsound : ∀ e ∈ d.definitions, e.Sound)
    (hlen : maxItems < d.definitions.length) (rest : List Token) :
    Parsed.ofTokens (d.tokens ++ rest)
      = ⟨⟨(d.definitions.take maxItems).map Definition.meaning⟩,
        [.tooManyItems "document"
          (nextToken ((d.definitions.drop maxItems).flatMap Definition.tokens ++ rest))]⟩ := by
  obtain ⟨ds⟩ := d
  have htaken : ∀ e ∈ ds.take maxItems, e.Sound := fun e he =>
    hsound e (List.take_subset _ _ he)
  have hlength : (ds.take maxItems).length + 0 = maxItems := by
    rw [List.length_take, Nat.add_zero, Nat.min_eq_left hlen.le]
  -- There is a definition that is not read, and it is not the end of input.
  have hnext : nextKind ((ds.drop maxItems).flatMap Definition.tokens ++ rest) ≠ .eof := by
    rw [List.drop_eq_getElem_cons hlen, List.flatMap_cons, List.append_assoc]
    exact nextKind_definition_ne_eof _ _
  have hend : Reading.definitions 0 ((ds.drop maxItems).flatMap Definition.tokens ++ rest) = _ :=
    if_neg hnext
  have hcut : (ds.take maxItems).map Definition.cut = (ds.take maxItems).map Definition.meaning :=
    List.map_congr_left fun e he => Definition.cut_eq_meaning (htaken e he).2
  have hdeep : (ds.take maxItems).flatMap Definition.overflow = [] :=
    List.flatMap_eq_nil_iff.2 fun e he => (htaken e he).2
  have hread := definitions_tokens_append (fun e he => (htaken e he).1)
    (fun e he s hs => by simp [(htaken e he).2] at hs) 0
    ((ds.drop maxItems).flatMap Definition.tokens ++ rest)
  rw [hlength, ← List.append_assoc, ← List.flatMap_append, List.take_append_drop, hend, hcut,
    hdeep] at hread
  rw [Parsed.ofTokens, document, rounds_eq, tokens, hread]
  simp [Reading.map]

/-! ## All constructs -/

/-- **The limit on items is exact for documents, and one less for every other construct.** A
document of valid definitions keeps as many of them as the limit, and is reported only if there are
more. Every other construct, in whatever slot of a valid document and with whatever levels left
there, keeps as many of its items as the limit, too, and is reported exactly if there are as many as
that, or more: its closing bracket is looked for in a round of its own. -/
theorem constructs_obeyLimit (levels : Nat) {rest : List Token} (hrest : nextKind rest = .eof) :
    (∀ d : Document, (∀ e ∈ d.definitions, Document.IsValid ⟨[e]⟩) →
      Parsed.ofTokens (d.tokens ++ rest)
        = if d.definitions.length ≤ maxItems then ⟨d.meaning, []⟩
          else ⟨⟨(d.definitions.take maxItems).map Definition.meaning⟩,
            [.tooManyItems "document" (nextToken
              ((d.definitions.drop maxItems).flatMap Definition.tokens ++ rest))]⟩)
    ∧ (∀ fill, Slot .selection levels fill →
      ObeysLimit .selectionSet Field.tokens (fun _ => True) fill (.selection levels)
        (selectionSet levels) (List.map Field.meaning) rest)
    ∧ (∀ fill, Slot .arguments levels fill →
      ObeysLimit .fieldArguments (Labelled.tokens Value.tokens) (fun _ => True) fill
        (.arguments levels) (arguments (literal levels))
        (List.map fun l => ⟨l.name, l.value.meaning⟩) rest)
    ∧ (∀ fill, Slot .literal levels fill →
      ObeysLimit .listValue Value.tokens (fun _ => True) (fun g => fill (.list g))
        (.literal levels) (literal levels) (fun vs => .array (vs.map Value.meaning)) rest)
    ∧ (∀ fill, Slot .literal levels fill →
      ObeysLimit .objectValue (Labelled.tokens Value.tokens)
        (fun ls => (ls.map Labelled.name).Nodup) (fun g => fill (.object g)) (.literal levels)
        (literal levels) (fun ls => .object (ls.map fun l => (l.name, l.value.meaning))) rest)
    ∧ (∀ fill, Slot .declarations levels fill →
      ObeysLimit .variableDefinitions Variable.tokens (fun _ => True) fill .declarations
        variableDefinitions (List.map Variable.meaning) rest)
    ∧ ∀ fill, Slot .typeBody levels fill →
      ObeysLimit .typeDefinition FieldType.tokens (fun _ => True) fill .typeBody
        (fun ts => (items .typeDefinition fieldDefinition maxItems ts.tail).map Items.kept)
        (List.map FieldType.name) rest := by
  refine ⟨fun d hvalid => ?_, fun _ h => h.selection_obeysLimit hrest,
    fun _ h => h.arguments_obeysLimit hrest, fun _ h => h.list_obeysLimit hrest,
    fun _ h => h.object_obeysLimit hrest, fun _ h => h.declarations_obeysLimit hrest,
    fun _ h => h.typeBody_obeysLimit hrest⟩
  have hsound : ∀ e ∈ d.definitions, e.Sound := fun e he =>
    (Document.isValid_iff.1 (hvalid e he)).2 e List.mem_cons_self
  by_cases hlen : d.definitions.length ≤ maxItems
  · rw [if_pos hlen, (Document.isValid_iff.2 ⟨hlen, hsound⟩).ofTokens_eq hrest]
  · rw [if_neg hlen, Document.ofTokens_eq_take hsound (Nat.lt_of_not_le hlen)]

/-- The query of so many fields `a`. -/
def wideQuery (n : Nat) : Document :=
  ⟨[] ++ .anonymous (.ofItems ⟨0, 0⟩ ⟨0, 0⟩ (List.replicate n ⟨⟨0, 0⟩, "a", none, none⟩)) :: []⟩

/-- A query of up to one field is valid. -/
theorem wideQuery_isValid {n : Nat} (h : n ≤ 1) : (wideQuery n).IsValid := by
  have hfield : (Field.mk ⟨0, 0⟩ "a" none none).Sound 63 :=
    Field.sound_iff.2 ⟨by simp, by simp⟩
  have haround : Document.SoundAround [] [] := ⟨by decide, by simp, by simp⟩
  refine Document.isValid_append.2 ⟨haround, Definition.sound_anonymous.2
    (Selection.sound_succ.2 (Group.sound_ofItems.2 ⟨?_, fun x hx => ?_⟩))⟩
  · rw [List.length_replicate]
    exact Nat.lt_of_le_of_lt h (by decide)
  · rwa [List.eq_of_mem_replicate hx]

/-- One field less than the limit is read without a fault, and as many as that are reported. -/
theorem constructs_obeyLimit_wideQuery :
    Parsed.ofTokens ((wideQuery 9999).tokens ++ [Token.unplacedEof])
      = ⟨(wideQuery 9999).meaning, []⟩
    ∧ ∃ next, .tooManyItems "selection set" next
      ∈ (Parsed.ofTokens ((wideQuery 10000).tokens ++ [Token.unplacedEof])).diagnostics := by
  have hrest : nextKind [Token.unplacedEof] = .eof := rfl
  obtain ⟨-, hselection, -⟩ := constructs_obeyLimit maxNesting hrest
  have hlimit := fun n => hselection _ (.anonymous [] []) ⟨0, 0⟩ ⟨0, 0⟩
    (List.replicate n ⟨⟨0, 0⟩, "a", none, none⟩) (wideQuery_isValid (Nat.zero_le 1))
    (fun x hx => by rw [List.eq_of_mem_replicate hx]; exact wideQuery_isValid (Nat.le_refl 1))
    trivial
  exact ⟨(hlimit 9999).within (by rw [List.length_replicate]; decide),
    (hlimit 10000).reported (by rw [List.length_replicate]; decide)⟩

end GraphQuery.Derivation
