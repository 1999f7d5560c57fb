import GraphQuery.Proofs.Derivation.Tokens
import GraphQuery.Proofs.Rounds

/-! # Reading derivations back

Reading the tokens of a derivation gives its meaning, up to the depth that reading goes to. What
nests deeper is replaced and reported, one diagnostic for each subtree. This holds as long as every
construct has rounds enough and every subtree that is skipped can be skipped as a whole.

Some productions have a part at their end that may be missing. What follows them must not look like
that part, and within a document it never does. -/

namespace GraphQuery.Derivation

open Reading

variable {α ι : Type}

/-- Whether a subtree can be skipped as a whole: it is one token or one group, and the group is no
longer than skipping goes. -/
def SkipsWhole (s : Subtree) : Prop := s.isUnit ∧ s.tokens.length ≤ maxItems

/-- A subtree that nests too deep is skipped and reported. -/
theorem tooDeep_tokens {s : Subtree} (h : SkipsWhole s) (value : α) (rest : List Token) :
    tooDeep value (s.tokens ++ rest) = ⟨value, [s.fault], rest⟩ := by
  obtain ⟨hunit, hlen⟩ := h
  have honce := Subtree.skippedAtOnce_tokens hunit
  rw [tooDeep, honce.skipSubtree_append hlen, honce.nextToken_append, Subtree.fault]

/-! ## Groups -/

/-- What follows an item is a comma, another item, or what follows all of them. -/
theorem not_continues_rounds {tokens : ι → List Token} {continues : Token.Kind → Prop}
    {rounds : List (Round ι)}
    (hhead : ∀ a ∈ itemsOf rounds, ∃ t ts, tokens a = t :: ts ∧ ¬ continues t.kind)
    (hcomma : ¬ continues .comma) {rest : List Token} (hrest : ¬ continues (nextKind rest)) :
    ¬ continues (nextKind (rounds.flatMap (Round.tokens tokens) ++ rest)) := by
  cases rounds with
  | nil => exact hrest
  | cons next rounds =>
    cases next with
    | comma place => exact hcomma
    | item b =>
      obtain ⟨t, ts, htokens, hcontinues⟩ := hhead b List.mem_cons_self
      rw [List.flatMap_cons, Round.tokens, htokens]
      exact hcontinues

/-- **Items that are read back** in a construct: each starts with a token that neither ends the
construct nor continues the item before, and is read in front of anything that does not continue
it. -/
structure ReadsItems (construct : Construct) (item : List Token → Reading (Item α))
    (tokens : ι → List Token) (value : ι → α) (faults : ι → List Diagnostic)
    (continues : Token.Kind → Prop) (as : List ι) : Prop where
  /-- How an item starts. -/
  head : ∀ a ∈ as, ∃ t ts, tokens a = t :: ts ∧ construct.endsAt t.kind = false
    ∧ t.kind ≠ .comma ∧ ¬ continues t.kind
  /-- How an item is read. -/
  read : ∀ a ∈ as, ∀ ts, ¬ continues (nextKind ts) →
    item (tokens a ++ ts) = ⟨.kept (value a), faults a, ts⟩
  /-- No item goes on with a comma. -/
  comma : ¬ continues .comma
  /-- No item goes on with the closing bracket. -/
  closing : ¬ continues (.closing construct.shape)

namespace ReadsItems

variable {construct : Construct} {shape : Delimiter} {item : List Token → Reading (Item α)}
  {tokens : ι → List Token} {value : ι → α} {faults : ι → List Diagnostic}
  {continues : Token.Kind → Prop} {as bs : List ι} {rounds : List (Round ι)} {rest : List Token}

/-- Some of the items are read back like all of them. -/
theorem mono (h : ReadsItems construct item tokens value faults continues as) (hsubset : bs ⊆ as) :
    ReadsItems construct item tokens value faults continues bs :=
  ⟨fun a ha => h.head a (hsubset ha), fun a ha => h.read a (hsubset ha), h.comma, h.closing⟩

/-- What follows an item does not continue it. -/
theorem not_continues (h : ReadsItems construct item tokens value faults continues
    (itemsOf rounds)) (hrest : ¬ continues (nextKind rest)) :
    ¬ continues (nextKind (rounds.flatMap (Round.tokens tokens) ++ rest)) := by
  refine not_continues_rounds (fun a ha => ?_) h.comma hrest
  obtain ⟨t, ts, htokens, -, -, hcontinues⟩ := h.head a ha
  exact ⟨t, ts, htokens, hcontinues⟩

/-- How an item starts, whatever follows it. -/
theorem nextKind_append (h : ReadsItems construct item tokens value faults continues as) {a : ι}
    (ha : a ∈ as) (ts : List Token) :
    construct.endsAt (nextKind (tokens a ++ ts)) = false
      ∧ nextKind (tokens a ++ ts) ≠ .comma := by
  obtain ⟨t, ts', htokens, hends, hcomma, -⟩ := h.head a ha
  rw [htokens]
  exact ⟨hends, hcomma⟩

/-- **Rounds in a row are read one by one**, and what follows them is read with the rounds that are
left. -/
theorem items_append (h : ReadsItems construct item tokens value faults continues
    (itemsOf rounds)) (hrest : ¬ continues (nextKind rest)) (budget : Nat) :
    items construct item (rounds.length + budget)
        (rounds.flatMap (Round.tokens tokens) ++ rest)
      = ⟨{ (items construct item budget rest).value with
            kept := (itemsOf rounds).map value ++ (items construct item budget rest).value.kept },
          (itemsOf rounds).flatMap faults ++ (items construct item budget rest).diagnostics,
          (items construct item budget rest).rest⟩ := by
  -- The induction is on the rounds; each of them uses up one of the budget.
  induction rounds with
  | nil => simp
  | cons round rounds ih =>
    rw [List.length_cons, Nat.add_right_comm, List.flatMap_cons, List.append_assoc]
    cases round with
    | comma place =>
      rw [Round.tokens, List.singleton_append, items_comma, ih h, itemsOf_comma]
    | item a =>
      have hmore := h.mono (List.subset_cons_self a (itemsOf rounds))
      obtain ⟨hends, hcomma⟩ := h.nextKind_append List.mem_cons_self
        (rounds.flatMap (Round.tokens tokens) ++ rest)
      rw [Round.tokens, items_kept hends hcomma
        (h.read a List.mem_cons_self _ (hmore.not_continues hrest)), ih hmore, itemsOf_item]
      simp

/-- **Reading the rounds of a group** whose opening bracket has been passed gives its items. -/
theorem items_rounds (h : ReadsItems construct item tokens value faults continues
    (itemsOf rounds)) {budget : Nat} (hlen : rounds.length < budget) (closing : Span)
    (rest : List Token) :
    items construct item budget
        (rounds.flatMap (Round.tokens tokens) ++ ⟨.closing construct.shape, closing⟩ :: rest)
      = ⟨⟨(itemsOf rounds).map value, none⟩, (itemsOf rounds).flatMap faults, rest⟩ := by
  obtain ⟨more, rfl⟩ := Nat.exists_eq_add_of_lt hlen
  have hrest : ¬ continues (nextKind (⟨.closing construct.shape, closing⟩ :: rest)) := h.closing
  rw [Nat.add_assoc, h.items_append hrest, items_closing]
  simp

/-- **Reading a group** after its opening bracket gives its items. -/
theorem items_group {g : Group shape ι}
    (h : ReadsItems construct item tokens value faults continues g.items) (hfits : g.Fits)
    (hshape : construct.shape = shape) (rest : List Token) :
    items construct item maxItems (g.tokens tokens ++ rest).tail
      = ⟨⟨g.items.map value, none⟩, g.items.flatMap faults, rest⟩ := by
  subst hshape
  have hrounds := h.items_rounds hfits g.closing rest
  rw [Group.tokens, List.cons_append, List.tail_cons, List.append_assoc]
  exact hrounds

end ReadsItems

/-- A group starts with its opening bracket. -/
@[simp] theorem nextKind_group {shape : Delimiter} (g : Group shape ι) (tokens : ι → List Token)
    (rest : List Token) : nextKind (g.tokens tokens ++ rest) = .opening shape := rfl

/-! ## Literals -/

/-- The first token of a literal is neither a comma nor the end of any construct that literals
stand in. -/
theorem exists_head_value (v : Value) :
    ∃ t ts, v.tokens = t :: ts ∧ Construct.listValue.endsAt t.kind = false ∧ t.kind ≠ .comma := by
  cases v with
  | list g => exact ⟨_, _, Value.tokens_list g, by simp [Construct.endsAt, Construct.yieldsTo],
      by simp⟩
  | object g => exact ⟨_, _, Value.tokens_object g, by simp [Construct.endsAt, Construct.yieldsTo],
      by simp⟩
  | _ => exact ⟨_, _, by rw [Value.tokens], by simp [Construct.endsAt, Construct.yieldsTo], by simp⟩

/-- A field of an object is read by reading what its key labels. -/
theorem objectField_tokens (reader : List Token → Reading Literal) (l : Labelled Value)
    (rest : List Token) :
    objectField reader (l.tokens Value.tokens ++ rest)
      = (reader (l.value.tokens ++ rest)).map fun value => .kept (l.name, value) := by
  rw [Labelled.tokens, List.cons_append, List.cons_append, objectField, nextKind_cons]
  simp only [List.tail_cons, nextKind_cons, if_true]

/-- A key without its colon spoils the object. -/
theorem objectField_missedColon (reader : List Token → Reading Literal) {text : String}
    {place : Span} {ts : List Token} (h : nextKind ts ≠ .colon) :
    objectField reader (⟨.name text, place⟩ :: ts) = spoilObject .objectColon ts := if_neg h

/-- What is recorded on a literal that may nest so many levels deep. -/
def Value.faults (levels : Nat) (v : Value) : List Diagnostic :=
  (v.overflow levels).map Subtree.fault

theorem Value.faults_list (levels : Nat) (g : Group .bracket Value) :
    (list g).faults (levels + 1) = g.items.flatMap (faults levels) := by
  rw [faults, overflow, List.map_flatMap]
  rfl

theorem Value.faults_object (levels : Nat) (g : Group .brace (Labelled Value)) :
    (object g).faults (levels + 1) = g.items.flatMap fun l => l.value.faults levels := by
  rw [faults, overflow, List.map_flatMap]
  rfl

/-- The items of a list are read back if literals are. -/
theorem readsItems_list {levels : Nat} {vs : List Value}
    (hread : ∀ v ∈ vs, ∀ ts, literal levels (v.tokens ++ ts)
      = ⟨v.cut levels, v.faults levels, ts⟩) :
    ReadsItems .listValue (fun ts => (literal levels ts).map .kept) Value.tokens
      (Value.cut levels) (Value.faults levels) (fun _ => False) vs where
  head v _ := by simpa using exists_head_value v
  read v hv ts _ := by
    rw [hread v hv]
    rfl
  comma := id
  closing := id

/-- The fields of an object are read back if literals are. -/
theorem readsItems_object {levels : Nat} {ls : List (Labelled Value)}
    (hread : ∀ l ∈ ls, ∀ ts, literal levels (l.value.tokens ++ ts)
      = ⟨l.value.cut levels, l.value.faults levels, ts⟩) :
    ReadsItems .objectValue (objectField (literal levels)) (Labelled.tokens Value.tokens)
      (fun l => (l.name, l.value.cut levels)) (fun l => l.value.faults levels)
      (fun _ => False) ls where
  head l _ := ⟨_, _, rfl, rfl, by simp, id⟩
  read l hl ts _ := by
    rw [objectField_tokens, hread l hl]
    rfl
  comma := id
  closing := id

/-- **Literals are read back.** -/
theorem literal_tokens {levels : Nat} {v : Value} (hfits : v.Fits)
    (hwhole : ∀ s ∈ v.overflow levels, SkipsWhole s) (rest : List Token) :
    literal levels (v.tokens ++ rest) = ⟨v.cut levels, v.faults levels, rest⟩ := by
  -- The induction is on the levels that are left, and the literal is taken apart one level deep.
  induction levels generalizing v rest with
  | zero =>
    exact tooDeep_tokens (s := .value v) (hwhole _ (by simp [Value.overflow])) _ rest
  | succ levels ih =>
    cases v with
    | int place digits =>
      simp [Value.tokens, literal, Value.cut, Value.faults, Value.overflow, Value.meaning]
    | string place contents =>
      simp [Value.tokens, literal, Value.cut, Value.faults, Value.overflow, Value.meaning]
    | word place text =>
      simp [Value.tokens, literal, Value.cut, Value.faults, Value.overflow, Value.meaning,
        literalOfName]
    | variableRef dollar place text =>
      simp [Value.tokens, literal, Value.cut, Value.faults, Value.overflow, Value.meaning,
        variableName, map]
    | list g =>
      obtain ⟨hg, hitems⟩ := (Value.fits_list g).1 hfits
      rw [Value.overflow] at hwhole
      have hreads := readsItems_list fun v hv =>
        ih (hitems v hv) fun s hs => hwhole s (List.mem_flatMap.2 ⟨v, hv, hs⟩)
      rw [Value.tokens_list, literal, nextKind_group]
      simp only [rounds_eq]
      rw [hreads.items_group hg rfl, Value.cut, Value.faults_list]
      rfl
    | object g =>
      obtain ⟨hg, hitems⟩ := (Value.fits_object g).1 hfits
      rw [Value.overflow] at hwhole
      have hreads := readsItems_object fun l hl =>
        ih (hitems l hl) fun s hs => hwhole s (List.mem_flatMap.2 ⟨l, hl, hs⟩)
      rw [Value.tokens_object, literal, nextKind_group]
      simp only [rounds_eq]
      rw [hreads.items_group hg rfl, Value.cut, Value.faults_object,
        ← Entries.ofPairs_eq_lastWrites]
      rfl

/-! ## Selections -/

/-- What may go on after a field: the brackets of arguments or of a nested selection set. -/
def ContinuesField (kind : Token.Kind) : Prop := kind = .opening .paren ∨ kind = .opening .brace

/-- An argument is read by reading what its name labels. -/
theorem argument_tokens (reader : List Token → Reading Literal) (l : Labelled Value)
    (rest : List Token) :
    argument reader (l.tokens Value.tokens ++ rest)
      = (reader (l.value.tokens ++ rest)).map fun value => .kept ⟨l.name, value⟩ := by
  rw [Labelled.tokens, List.cons_append, List.cons_append, argument, nextKind_cons]
  simp only [List.tail_cons, nextKind_cons, if_true]

/-- The name of an argument without its colon is kept, with a remark in place of its value. -/
theorem argument_missedColon (reader : List Token → Reading Literal) {text : String}
    {place : Span} {ts : List Token} (h : nextKind ts ≠ .colon) :
    argument reader (⟨.name text, place⟩ :: ts) = unexpected .argumentColon
      (.kept ⟨text, .illegal Expectation.argumentColon.phrase⟩) ts := if_neg h

/-- The arguments of a field are read back one by one. -/
theorem readsItems_arguments {levels : Nat} {ls : List (Labelled Value)}
    (hfits : ∀ l ∈ ls, l.value.Fits)
    (hwhole : ∀ l ∈ ls, ∀ s ∈ l.value.overflow levels, SkipsWhole s) :
    ReadsItems .fieldArguments (argument (literal levels)) (Labelled.tokens Value.tokens)
      (fun l => ⟨l.name, l.value.cut levels⟩) (fun l => l.value.faults levels)
      (fun _ => False) ls where
  head l _ := ⟨_, _, rfl, rfl, by simp, id⟩
  read l hl ts _ := by
    rw [argument_tokens, literal_tokens (hfits l hl) (hwhole l hl)]
    rfl
  comma := id
  closing := id

/-- The arguments of a field are read back, whether there are any or not. -/
theorem arguments_tokens {levels : Nat} {f : Field} (hfits : f.Fits)
    (hwhole : ∀ l ∈ f.argumentItems, ∀ s ∈ l.value.overflow levels, SkipsWhole s)
    {rest : List Token} (hrest : f.arguments = none → nextKind rest ≠ .opening .paren) :
    arguments (literal levels)
        (f.arguments.elim [] (Group.tokens (Labelled.tokens Value.tokens)) ++ rest)
      = ⟨f.argumentItems.map fun l => ⟨l.name, l.value.cut levels⟩,
          f.argumentItems.flatMap fun l => l.value.faults levels, rest⟩ := by
  obtain ⟨place, name, _ | g, selection⟩ := f
  · show arguments (literal levels) rest = ⟨[], [], rest⟩
    rw [arguments, if_neg (hrest rfl)]
  · obtain ⟨hg, hvalues⟩ := ((Field.fits_iff _).1 hfits).1 g rfl
    show arguments (literal levels) (g.tokens (Labelled.tokens Value.tokens) ++ rest) = _
    rw [arguments, nextKind_group, if_pos rfl, rounds_eq,
      (readsItems_arguments hvalues hwhole).items_group hg rfl]
    rfl

/-- A nested selection set is not taken for arguments, and neither is what follows a field. -/
theorem nextKind_selection_ne_paren {f : Field} {ts : List Token}
    (hts : ¬ ContinuesField (nextKind ts)) :
    nextKind (f.selection.elim [] (Group.tokens Field.tokens) ++ ts) ≠ .opening .paren := by
  cases f.selection with
  | none => exact fun h => hts (.inl h)
  | some inner =>
    show nextKind (inner.tokens Field.tokens ++ ts) ≠ _
    simp

/-- A field is read by reading its arguments and its nested selection set. -/
theorem field_tokens (reader : List Token → Reading Literal)
    (selection : List Token → Reading SelectionSet) (f : Field) (rest : List Token) :
    field reader selection (f.tokens ++ rest)
      = (arguments reader (f.arguments.elim [] (Group.tokens (Labelled.tokens Value.tokens))
          ++ (f.selection.elim [] (Group.tokens Field.tokens) ++ rest))).andThen
        fun arguments ts =>
          (nested selection ts).map fun selection => .kept ⟨f.name, arguments, selection⟩ := by
  rw [Field.tokens_eq, List.cons_append, List.append_assoc, field, nextKind_cons]
  rfl

namespace Field

/-- The subtrees of a field of a selection set that lie beyond so many levels. -/
def overflow (levels : Nat) (f : Field) : List Subtree :=
  (f.argumentItems.flatMap fun l => l.value.overflow levels)
    ++ f.selection.elim [] (Selection.overflow levels)

/-- The meaning of a field without what lies beyond so many levels. -/
def cut (levels : Nat) (f : Field) : GraphQuery.Field :=
  ⟨f.name, f.argumentItems.map fun l => ⟨l.name, l.value.cut levels⟩,
    f.selection.map (Selection.cut levels)⟩

/-- What is recorded on a field of a selection set. -/
def faults (levels : Nat) (f : Field) : List Diagnostic :=
  (f.overflow levels).map Subtree.fault

end Field

theorem Selection.overflow_succ (levels : Nat) (s : Selection) :
    Selection.overflow (levels + 1) s = s.items.flatMap (Field.overflow levels) := by
  rw [Selection.overflow]
  rfl

theorem Selection.cut_succ (levels : Nat) (s : Selection) :
    Selection.cut (levels + 1) s = s.items.map (Field.cut levels) := by
  rw [Selection.cut]
  rfl

/-- **Fields are read back** if their nested selection sets are. -/
theorem field_readsBack {levels : Nat} {f : Field} (hfits : f.Fits)
    (hwhole : ∀ t ∈ f.overflow levels, SkipsWhole t)
    (hread : ∀ s ∈ f.selection, ∀ ts, selectionSet levels (s.tokens Field.tokens ++ ts)
      = ⟨Selection.cut levels s, (Selection.overflow levels s).map Subtree.fault, ts⟩)
    {rest : List Token} (hrest : ¬ ContinuesField (nextKind rest)) :
    field (literal levels) (selectionSet levels) (f.tokens ++ rest)
      = ⟨.kept (f.cut levels), f.faults levels, rest⟩ := by
  -- Without a selection set, what follows must not look like one.
  have hnested : nested (selectionSet levels)
        (f.selection.elim [] (Group.tokens Field.tokens) ++ rest)
      = ⟨f.selection.map (Selection.cut levels),
          (f.selection.elim [] (Selection.overflow levels)).map Subtree.fault, rest⟩ := by
    cases hsel : f.selection with
    | none =>
      show nested (selectionSet levels) rest = ⟨none, [], rest⟩
      rw [nested, if_neg (fun h => hrest (.inr h))]
    | some inner =>
      show nested (selectionSet levels) (inner.tokens Field.tokens ++ rest) = _
      rw [nested, nextKind_group, if_pos rfl, hread inner hsel]
      rfl
  have hvalues : ∀ l ∈ f.argumentItems, ∀ t ∈ l.value.overflow levels, SkipsWhole t :=
    fun l hl t ht => hwhole t (List.mem_append_left _ (List.mem_flatMap.2 ⟨l, hl, ht⟩))
  have hparen := nextKind_selection_ne_paren (f := f) hrest
  rw [field_tokens, arguments_tokens hfits hvalues fun _ => hparen, andThen]
  simp only
  rw [hnested]
  simp [map, List.map_flatMap, Field.cut, Field.faults, Field.overflow, Value.faults]

/-- The fields of a selection set are read back one by one, if nested selection sets are. -/
theorem readsItems_fields {levels : Nat} {fs : List Field} (hfits : ∀ f ∈ fs, f.Fits)
    (hwhole : ∀ f ∈ fs, ∀ t ∈ f.overflow levels, SkipsWhole t)
    (hread : ∀ f ∈ fs, ∀ s ∈ f.selection, ∀ ts, selectionSet levels (s.tokens Field.tokens ++ ts)
      = ⟨Selection.cut levels s, (Selection.overflow levels s).map Subtree.fault, ts⟩) :
    ReadsItems .selectionSet (field (literal levels) (selectionSet levels)) Field.tokens
      (Field.cut levels) (Field.faults levels) ContinuesField fs where
  head f _ := ⟨_, _, Field.tokens_eq f, rfl, by simp, by simp [ContinuesField]⟩
  read f hf _ hts := field_readsBack (hfits f hf) (hwhole f hf) (hread f hf) hts
  comma := by simp [ContinuesField]
  closing := by simp [ContinuesField]

/-- **Selection sets are read back.** -/
theorem selectionSet_tokens {levels : Nat} {s : Selection} (hs : s.Fits)
    (hfits : ∀ f ∈ s.items, f.Fits) (hwhole : ∀ t ∈ s.overflow levels, SkipsWhole t)
    (rest : List Token) :
    selectionSet levels (s.tokens Field.tokens ++ rest)
      = ⟨s.cut levels, (s.overflow levels).map Subtree.fault, rest⟩ := by
  induction levels generalizing s rest with
  | zero =>
    exact tooDeep_tokens (s := .selection s) (hwhole _ (by simp [Selection.overflow])) _ rest
  | succ levels ih =>
    rw [Selection.overflow_succ] at hwhole
    have hwhole' : ∀ f ∈ s.items, ∀ t ∈ f.overflow levels, SkipsWhole t :=
      fun f hf t ht => hwhole t (List.mem_flatMap.2 ⟨f, hf, ht⟩)
    have hread : ∀ f ∈ s.items, ∀ inner ∈ f.selection, ∀ ts,
        selectionSet levels (inner.tokens Field.tokens ++ ts)
          = ⟨Selection.cut levels inner, (Selection.overflow levels inner).map Subtree.fault,
              ts⟩ := by
      intro f hf inner hinner ts
      obtain ⟨hg, hitems⟩ := ((Field.fits_iff f).1 (hfits f hf)).2 inner hinner
      refine ih hg hitems (fun t ht => hwhole' f hf t (List.mem_append_right _ ?_)) ts
      rw [Option.mem_def.1 hinner]
      exact ht
    rw [selectionSet, rounds_eq, (readsItems_fields hfits hwhole' hread).items_group hs rfl,
      Selection.overflow_succ, Selection.cut_succ, List.map_flatMap]
    rfl

/-! ## Type references -/

/-- An exclamation mark is read back, whether it is there or not. -/
theorem nullability_tokens (mark : Option Span) {rest : List Token}
    (hrest : nextKind rest ≠ .bang) :
    nullability (TypeTree.markTokens mark ++ rest) = ⟨TypeTree.nullability mark, [], rest⟩ := by
  cases mark with
  | none =>
    show nullability rest = ⟨.nullable, [], rest⟩
    rw [nullability, if_neg hrest]
  | some place => rfl

/-- A list type is read by reading its element, its closing bracket and its mark. -/
theorem typeReference_list (levels : Nat) (opening : Span) (element : TypeTree) (closing : Span)
    (mark : Option Span) (rest : List Token) :
    typeReference (levels + 1) ((TypeTree.list opening element closing mark).tokens ++ rest)
      = (typeReference levels (element.tokens
          ++ ⟨.closing .bracket, closing⟩ :: (TypeTree.markTokens mark ++ rest))).andThen
        fun element ts => (close .listType ts).andThen fun _ ts =>
          (nullability ts).map fun mark => some (.list element mark) := by
  rw [TypeTree.tokens, List.cons_append, List.append_assoc, typeReference, nextKind_cons]
  rfl

/-- **Type references are read back.** -/
theorem typeReference_tokens {levels : Nat} {t : TypeTree}
    (hwhole : ∀ s ∈ t.overflow levels, SkipsWhole s) {rest : List Token}
    (hrest : nextKind rest ≠ .bang) :
    typeReference levels (t.tokens ++ rest)
      = ⟨t.cut levels, (t.overflow levels).map Subtree.fault, rest⟩ := by
  induction levels generalizing t rest with
  | zero =>
    exact tooDeep_tokens (s := .type t) (hwhole _ (by simp [TypeTree.overflow])) _ rest
  | succ levels ih =>
    cases t with
    | named place name mark =>
      rw [TypeTree.tokens, List.cons_append, typeReference, nextKind_cons]
      simp only [List.tail_cons]
      rw [nullability_tokens mark hrest]
      rfl
    | list opening element closing mark =>
      -- The element is followed by the closing bracket, so that no mark is taken for its own.
      have hclose : close .listType (⟨.closing .bracket, closing⟩ ::
          (TypeTree.markTokens mark ++ rest)) = ⟨(), [], TypeTree.markTokens mark ++ rest⟩ :=
        rfl
      rw [typeReference_list, ih hwhole (by simp), andThen]
      simp only
      rw [hclose, andThen]
      simp only
      rw [nullability_tokens mark hrest]
      simp [map, TypeTree.cut, TypeTree.overflow]

/-! ## Definitions -/

/-- What may go on after a declared variable: the colon before its type, or an exclamation mark. -/
def ContinuesVariable (kind : Token.Kind) : Prop := kind = .colon ∨ kind = .bang

/-- A declared variable is read by reading its type. -/
theorem variableDefinition_type (dollar place : Span) (name : String) (colon : Span)
    (type : TypeTree) (rest : List Token) :
    variableDefinition ((Variable.mk dollar place name (some (colon, type))).tokens ++ rest)
      = (typeReference maxNesting (type.tokens ++ rest)).map fun type => .kept ⟨name, type⟩ := by
  rw [Variable.tokens, List.cons_append, variableDefinition, nextKind_cons]
  rfl

/-- Declared variables are read back. -/
theorem variableDefinition_tokens {v : Variable} (hwhole : ∀ s ∈ v.overflow, SkipsWhole s)
    {rest : List Token} (hrest : ¬ ContinuesVariable (nextKind rest)) :
    variableDefinition (v.tokens ++ rest)
      = ⟨.kept v.cut, v.overflow.map Subtree.fault, rest⟩ := by
  obtain ⟨dollar, place, name, _ | ⟨colon, type⟩⟩ := v
  · rw [Variable.tokens, List.cons_append, variableDefinition, nextKind_cons]
    simp [variableName, andThen, Variable.cut, Variable.overflow,
      if_neg (fun h => hrest (.inl h))]
  · rw [variableDefinition_type, typeReference_tokens hwhole fun h => hrest (.inr h)]
    rfl

/-- The variables of an operation are read back one by one. -/
theorem readsItems_variables {vs : List Variable}
    (hwhole : ∀ v ∈ vs, ∀ s ∈ v.overflow, SkipsWhole s) :
    ReadsItems .variableDefinitions variableDefinition Variable.tokens Variable.cut
      (fun v => v.overflow.map Subtree.fault) ContinuesVariable vs where
  head v _ := ⟨_, _, rfl, rfl, by simp, by simp [ContinuesVariable]⟩
  read v hv _ hts := variableDefinition_tokens (hwhole v hv) hts
  comma := by simp [ContinuesVariable]
  closing := by simp [ContinuesVariable]

/-- The variables of an operation are read back, whether it declares any or not. -/
theorem variableDefinitions_tokens {declared : Option (Group .paren Variable)}
    (hfits : ∀ g ∈ declared, g.Fits)
    (hwhole : ∀ v ∈ declared.elim [] Group.items, ∀ s ∈ v.overflow, SkipsWhole s)
    {rest : List Token} (hrest : nextKind rest ≠ .opening .paren) :
    variableDefinitions (declared.elim [] (Group.tokens Variable.tokens) ++ rest)
      = ⟨(declared.elim [] Group.items).map Variable.cut,
          (declared.elim [] Group.items).flatMap fun v => v.overflow.map Subtree.fault,
          rest⟩ := by
  cases declared with
  | none =>
    show variableDefinitions rest = ⟨[], [], rest⟩
    rw [variableDefinitions, if_neg hrest]
  | some g =>
    show variableDefinitions (g.tokens Variable.tokens ++ rest) = _
    rw [variableDefinitions, nextKind_group, if_pos rfl, rounds_eq,
      (readsItems_variables hwhole).items_group (hfits g rfl) rfl]
    rfl

/-- What a field of a type takes is passed, whether it takes anything or not. -/
theorem argumentDefinitions_tokens {takes : Option (Enclosed .paren)}
    (htakes : ∀ e ∈ takes, e.tokens.length ≤ maxItems) {rest : List Token}
    (hrest : nextKind rest ≠ .opening .paren) :
    argumentDefinitions (takes.elim [] Enclosed.tokens ++ rest) = ⟨(), [], rest⟩ := by
  cases takes with
  | none =>
    show argumentDefinitions rest = _
    rw [argumentDefinitions, if_neg hrest]
  | some e =>
    have hlen := htakes e rfl
    rw [Enclosed.tokens, length_enclosed] at hlen
    show argumentDefinitions (e.tokens ++ _) = _
    rw [argumentDefinitions, Enclosed.tokens, List.cons_append, List.append_assoc, nextKind_cons,
      if_pos rfl]
    exact skipGroup_group e.opening e.closing _ e.balanced hlen

/-- A field of a type is read by reading its type. -/
theorem fieldDefinition_type {f : FieldType} (htakes : ∀ e ∈ f.takes, e.tokens.length ≤ maxItems)
    (rest : List Token) :
    fieldDefinition (f.tokens ++ rest)
      = (typeReference maxNesting (f.type.tokens ++ rest)).map fun _ => .kept f.name := by
  rw [FieldType.tokens, List.cons_append, List.append_assoc, fieldDefinition, nextKind_cons]
  simp only [List.tail_cons, List.cons_append]
  rw [argumentDefinitions_tokens htakes (by simp), andThen]
  rfl

/-- Fields of a type are read back. -/
theorem fieldDefinition_tokens {f : FieldType} (htakes : ∀ e ∈ f.takes, e.tokens.length ≤ maxItems)
    (hwhole : ∀ s ∈ f.type.overflow maxNesting, SkipsWhole s) {rest : List Token}
    (hrest : nextKind rest ≠ .bang) :
    fieldDefinition (f.tokens ++ rest)
      = ⟨.kept f.name, (f.type.overflow maxNesting).map Subtree.fault, rest⟩ := by
  rw [fieldDefinition_type htakes, typeReference_tokens hwhole hrest]
  rfl

/-- The fields of a type are read back one by one. -/
theorem readsItems_fieldTypes {fs : List FieldType}
    (htakes : ∀ f ∈ fs, ∀ e ∈ f.takes, e.tokens.length ≤ maxItems)
    (hwhole : ∀ f ∈ fs, ∀ s ∈ f.type.overflow maxNesting, SkipsWhole s) :
    ReadsItems .typeDefinition fieldDefinition FieldType.tokens FieldType.name
      (fun f => (f.type.overflow maxNesting).map Subtree.fault) (· = .bang) fs where
  head f _ := ⟨_, _, rfl, rfl, by simp, by simp⟩
  -- A mark after a field would belong to its type, but no field starts with one.
  read f hf _ hts := fieldDefinition_tokens (htakes f hf) (hwhole f hf) hts
  comma := by simp
  closing := by simp

/-- The name of an operation is read back, whether it has one or not. -/
theorem name?_tokens (name : Option (Span × String)) {rest : List Token}
    (hrest : ∀ text, nextKind rest ≠ .name text) :
    name? ((name.elim [] fun (place, name) => [⟨.name name, place⟩]) ++ rest)
      = ⟨name.map Prod.snd, [], rest⟩ := by
  cases name with
  | none =>
    show name? rest = ⟨none, [], rest⟩
    rw [name?]
    split
    · next text h => exact absurd h (hrest text)
    · rfl
  | some n => rfl

/-- An anonymous query is read by reading its selection set. -/
theorem definition_anonymous (selection : Selection) (rest : List Token) :
    definition ((Definition.anonymous selection).tokens ++ rest)
      = (selectionSet maxNesting (selection.tokens Field.tokens ++ rest)).map fun selection =>
          some (.operation ⟨.query, none, [], selection⟩) := by
  rw [Definition.tokens, definition, nextKind_group]
  simp only
  rw [rootSelection, nextKind_group, if_pos rfl]

/-- An operation is read by reading its variables and its selection set. -/
theorem definition_operation (kind : OperationKind) (keyword : Span)
    (name : Option (Span × String)) (declared : Option (Group .paren Variable))
    (selection : Selection) (rest : List Token) :
    definition ((Definition.operation kind keyword name declared selection).tokens ++ rest)
      = (variableDefinitions (declared.elim [] (Group.tokens Variable.tokens)
          ++ (selection.tokens Field.tokens ++ rest))).andThen fun declared ts =>
        (rootSelection kind ts).map fun selection =>
          some (.operation ⟨kind, name.map Prod.snd, declared, selection⟩) := by
  have hparen : ∀ text, nextKind (declared.elim [] (Group.tokens Variable.tokens)
      ++ (selection.tokens Field.tokens ++ rest)) ≠ .name text := by
    intro text
    cases declared <;> simp [Option.elim]
  rw [Definition.tokens, List.cons_append, List.append_assoc, List.append_assoc, definition,
    nextKind_cons]
  simp only [OperationKind.ofKeyword?_keyword, List.tail_cons]
  rw [operation, name?_tokens name hparen, andThen]
  rfl

/-- A type definition is read by reading its fields. -/
theorem definition_typeDefinition (keyword place : Span) (name : String)
    (fields : Group .brace FieldType) (rest : List Token) :
    definition ((Definition.typeDefinition keyword place name fields).tokens ++ rest)
      = (items .typeDefinition fieldDefinition maxItems
          (fields.tokens FieldType.tokens ++ rest).tail).map fun fields =>
        some (.typeDefinition ⟨name, fields.kept⟩) := by
  -- The keyword is tried as that of an operation first.
  have hkeyword : OperationKind.ofKeyword? "type" = none := by decide
  rw [Definition.tokens, List.cons_append, definition, nextKind_cons]
  simp only [hkeyword, if_true, List.tail_cons]
  rw [List.cons_append, typeDefinition, nextKind_cons, List.tail_cons]
  simp only
  rw [nextKind_group, if_pos rfl]
  rfl

/-- **Definitions are read back.** -/
theorem definition_tokens {d : Definition} (hfits : d.Fits)
    (hwhole : ∀ s ∈ d.overflow, SkipsWhole s) (rest : List Token) :
    definition (d.tokens ++ rest) = ⟨some d.cut, d.overflow.map Subtree.fault, rest⟩ := by
  cases d with
  | anonymous selection =>
    obtain ⟨hselection, hfields⟩ := hfits
    rw [definition_anonymous, selectionSet_tokens hselection hfields hwhole]
    rfl
  | operation kind keyword name declared selection =>
    obtain ⟨hdeclared, hselection, hfields⟩ := hfits
    rw [Definition.overflow] at hwhole
    rw [definition_operation, variableDefinitions_tokens hdeclared
      (fun v hv s hs => hwhole s (List.mem_append_left _ (List.mem_flatMap.2 ⟨v, hv, hs⟩)))
      (by simp), andThen]
    simp only
    rw [rootSelection, nextKind_group, if_pos rfl, selectionSet_tokens hselection hfields
      fun s hs => hwhole s (List.mem_append_right _ hs)]
    simp [map, Definition.cut, Definition.overflow, List.map_flatMap]
  | typeDefinition keyword place name fields =>
    obtain ⟨hgroup, htakes⟩ := hfits
    rw [Definition.overflow] at hwhole
    have hreads := readsItems_fieldTypes htakes fun f hf s hs =>
      hwhole s (List.mem_flatMap.2 ⟨f, hf, hs⟩)
    rw [definition_typeDefinition, hreads.items_group hgroup rfl]
    simp [map, Definition.cut, Definition.overflow, List.map_flatMap]

/-! ## Documents -/

/-- A definition is not the end of input. -/
theorem nextKind_definition_ne_eof (d : Definition) (ts : List Token) :
    nextKind (d.tokens ++ ts) ≠ .eof := by
  cases d <;> simp [Definition.tokens]

/-- Definitions in a row are read back one by one, and what follows them is read with the rounds
that are left. -/
theorem definitions_tokens_append {ds : List Definition} (hfits : ∀ d ∈ ds, d.Fits)
    (hwhole : ∀ d ∈ ds, ∀ s ∈ d.overflow, SkipsWhole s) (budget : Nat) (rest : List Token) :
    definitions (ds.length + budget) (ds.flatMap Definition.tokens ++ rest)
      = ⟨ds.map Definition.cut ++ (definitions budget rest).value,
          (ds.flatMap Definition.overflow).map Subtree.fault
            ++ (definitions budget rest).diagnostics,
          (definitions budget rest).rest⟩ := by
  induction ds with
  | nil => simp
  | cons d ds ih =>
    have hmore := ih (fun e he => hfits e (List.mem_cons_of_mem d he))
      (fun e he => hwhole e (List.mem_cons_of_mem d he))
    rw [List.length_cons, Nat.add_right_comm, List.flatMap_cons, List.append_assoc, definitions,
      if_neg (nextKind_definition_ne_eof d _),
      definition_tokens (hfits d List.mem_cons_self) (hwhole d List.mem_cons_self), andThen]
    simp only
    rw [hmore]
    simp [map]

/-- Definitions in a row are read back up to the end of input. -/
theorem definitions_tokens {ds : List Definition} {budget : Nat} (hlen : ds.length ≤ budget)
    (hfits : ∀ d ∈ ds, d.Fits) (hwhole : ∀ d ∈ ds, ∀ s ∈ d.overflow, SkipsWhole s)
    {rest : List Token} (hrest : nextKind rest = .eof) :
    definitions budget (ds.flatMap Definition.tokens ++ rest)
      = ⟨ds.map Definition.cut, (ds.flatMap Definition.overflow).map Subtree.fault, rest⟩ := by
  obtain ⟨spare, rfl⟩ := Nat.exists_eq_add_of_le hlen
  have hend : definitions spare rest = ⟨[], [], rest⟩ := by
    cases spare <;> rw [definitions, if_pos hrest]
  rw [definitions_tokens_append hfits hwhole, hend, List.append_nil, List.append_nil]

/-- **Documents are read back.** -/
theorem document_tokens {d : Document} (hfits : d.Fits) (hwhole : ∀ s ∈ d.overflow, SkipsWhole s)
    {rest : List Token} (hrest : nextKind rest = .eof) :
    document (d.tokens ++ rest) = ⟨d.cut, d.overflow.map Subtree.fault, rest⟩ := by
  obtain ⟨hlen, hdefinitions⟩ := hfits
  rw [document, rounds_eq, Document.tokens, definitions_tokens hlen hdefinitions
    (fun e he s hs => hwhole s (List.mem_flatMap.2 ⟨e, he, hs⟩)) hrest]
  rfl

end GraphQuery.Derivation
