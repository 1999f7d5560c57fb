import GraphQuery.Proofs.Derivation.ReadBack

/-! # What is read without a diagnostic is derived

Each branch in which a reader recovers from something records a diagnostic. So if none is recorded,
the reader went through the productions of the grammar, and the tokens that it passed are those of
a derivation. What the reader made of them is the meaning of that derivation, none of its subtrees
nests too deep, and all of its groups fit. -/

namespace GraphQuery.Derivation

open Reading

variable {α ι : Type} {ts : List Token}

/-! ## Groups -/

/-- Of all the tokens at which a construct can end, only its closing bracket records nothing. -/
theorem exists_close {construct : Construct} (h : (close construct ts).diagnostics = []) :
    ∃ closing, ts = ⟨.closing construct.shape, closing⟩ :: (close construct ts).rest := by
  rcases ts with _ | ⟨⟨kind, place⟩, ts⟩
  · simp [close] at h
  · cases kind with
    | closing shape =>
      by_cases hshape : shape = construct.shape
      · subst hshape
        exact ⟨place, by simp [close]⟩
      · simp [close, hshape] at h
    | _ => simp [close, unexpected] at h

/-- **Rounds that record nothing** read items, with commas among them, up to the closing bracket. -/
theorem exists_rounds {construct : Construct} {item : List Token → Reading (Item α)}
    {tokens : ι → List Token} {value : ι → α} {P : ι → Prop}
    (hitem : ∀ ts, (item ts).diagnostics = [] →
      ∃ a, P a ∧ ts = tokens a ++ (item ts).rest ∧ (item ts).value = .kept (value a))
    {budget : Nat} (h : (items construct item budget ts).diagnostics = []) :
    ∃ (rounds : List (Round ι)) (closing : Span),
      rounds.length < budget ∧ (∀ a ∈ itemsOf rounds, P a)
      ∧ ts = rounds.flatMap (Round.tokens tokens) ++ ⟨.closing construct.shape, closing⟩
          :: (items construct item budget ts).rest
      ∧ (items construct item budget ts).value = ⟨(itemsOf rounds).map value, none⟩ := by
  induction budget generalizing ts with
  | zero => simp [items_zero] at h
  | succ budget ih =>
    -- A round ends the construct, passes a comma, or reads an item.
    by_cases hends : construct.endsAt (nextKind ts) = true
    · rw [items_end hends] at h ⊢
      obtain ⟨closing, hclose⟩ := exists_close h
      exact ⟨[], closing, by simp, by simp, hclose, rfl⟩
    · rw [Bool.not_eq_true] at hends
      by_cases hcomma : nextKind ts = .comma
      · obtain ⟨place, hts⟩ := eq_cons_of_nextKind hcomma (by simp)
        rw [hts, items_comma] at h ⊢
        obtain ⟨rounds, closing, hlen, hall, htail, hvalue⟩ := ih h
        refine ⟨.comma place :: rounds, closing, by simpa using hlen, hall, ?_, hvalue⟩
        rw [List.flatMap_cons, Round.tokens, List.singleton_append, List.cons_append, ← htail]
      · have hfirst : (item ts).diagnostics = [] := by
          rw [items_item hends hcomma, andThen_diagnostics, List.append_eq_nil_iff] at h
          exact h.1
        obtain ⟨a, ha, htokens, hkept⟩ := hitem ts hfirst
        -- An item that records nothing is kept, so that the rounds after it are read as well.
        have hread : item ts = ⟨.kept (value a), [], (item ts).rest⟩ := by
          rw [← hkept, ← hfirst]
        rw [items_kept hends hcomma hread] at h ⊢
        obtain ⟨rounds, closing, hlen, hall, htail, hvalue⟩ := ih h
        refine ⟨.item a :: rounds, closing, by simpa using hlen, ?_, ?_, ?_⟩
        · rw [itemsOf_item]
          exact List.forall_mem_cons.2 ⟨ha, hall⟩
        · rw [List.flatMap_cons, Round.tokens, List.append_assoc, ← htail]
          exact htokens
        · rw [hvalue]
          rfl

/-- **A group that records nothing** is derived. -/
theorem exists_group {construct : Construct} {shape : Delimiter} (hshape : construct.shape = shape)
    {item : List Token → Reading (Item α)} {tokens : ι → List Token} {value : ι → α} {P : ι → Prop}
    (hitem : ∀ ts, (item ts).diagnostics = [] →
      ∃ a, P a ∧ ts = tokens a ++ (item ts).rest ∧ (item ts).value = .kept (value a))
    (hopening : nextKind ts = .opening shape)
    (h : (items construct item maxItems ts.tail).diagnostics = []) :
    ∃ g : Group shape ι, g.Fits ∧ (∀ a ∈ g.items, P a)
      ∧ ts = g.tokens tokens ++ (items construct item maxItems ts.tail).rest
      ∧ (items construct item maxItems ts.tail).value = ⟨g.items.map value, none⟩ := by
  subst hshape
  obtain ⟨opening, hts⟩ := eq_cons_of_nextKind hopening (by simp)
  obtain ⟨rounds, closing, hlen, hall, htail, hvalue⟩ := exists_rounds hitem h
  refine ⟨⟨opening, rounds, closing⟩, hlen, hall, ?_, hvalue⟩
  rw [Group.tokens, List.cons_append, List.append_assoc, List.singleton_append, ← htail]
  exact hts

/-! ## Literals -/

/-- **A label that records nothing** is derived, with its colon and what it labels. -/
theorem exists_labelled {item : List Token → Reading (Item α)} (make : String → Literal → α)
    {reader : List Token → Reading Literal} {P : Value → Prop} {meaning : Value → Literal}
    (hvalue : ∀ ts, (reader ts).diagnostics = [] →
      ∃ v, P v ∧ ts = v.tokens ++ (reader ts).rest ∧ (reader ts).value = meaning v)
    (hread : ∀ text place colon ts, item (⟨.name text, place⟩ :: ⟨.colon, colon⟩ :: ts)
      = (reader ts).map fun value => .kept (make text value))
    (hcolon : ∀ text place ts, nextKind ts ≠ .colon →
      (item (⟨.name text, place⟩ :: ts)).diagnostics ≠ [])
    (hname : ∀ ts, (∀ text, nextKind ts ≠ .name text) → (item ts).diagnostics ≠ [])
    (h : (item ts).diagnostics = []) :
    ∃ l : Labelled Value, P l.value ∧ ts = l.tokens Value.tokens ++ (item ts).rest
      ∧ (item ts).value = .kept (make l.name (meaning l.value)) := by
  -- Nothing is recorded, so a name is next, and then a colon.
  obtain ⟨text, htext⟩ : ∃ text, nextKind ts = .name text := by
    by_contra hnone
    exact hname ts (not_exists.1 hnone) h
  obtain ⟨place, hts⟩ := eq_cons_of_nextKind htext (by simp)
  have hnext : nextKind ts.tail = .colon := by
    by_contra hmissed
    rw [hts] at h
    exact hcolon text place ts.tail hmissed h
  obtain ⟨colon, htail⟩ := eq_cons_of_nextKind hnext (by simp)
  obtain ⟨rest, rfl⟩ : ∃ rest, ts = ⟨.name text, place⟩ :: ⟨.colon, colon⟩ :: rest :=
    ⟨ts.tail.tail, by rw [← htail, ← hts]⟩
  rw [hread] at h ⊢
  obtain ⟨v, hv, hrest, hmeaning⟩ := hvalue rest h
  refine ⟨⟨place, text, colon, v⟩, hv, ?_, by rw [map_value, hmeaning]⟩
  rw [Labelled.tokens, List.cons_append, List.cons_append, map_rest, ← hrest]

/-- A field of an object that records nothing is derived. -/
theorem exists_objectField {reader : List Token → Reading Literal} {P : Value → Prop}
    {meaning : Value → Literal}
    (hvalue : ∀ ts, (reader ts).diagnostics = [] →
      ∃ v, P v ∧ ts = v.tokens ++ (reader ts).rest ∧ (reader ts).value = meaning v)
    (h : (objectField reader ts).diagnostics = []) :
    ∃ l : Labelled Value, P l.value
      ∧ ts = l.tokens Value.tokens ++ (objectField reader ts).rest
      ∧ (objectField reader ts).value = .kept (l.name, meaning l.value) := by
  refine exists_labelled Prod.mk hvalue (fun _ _ _ _ => rfl) ?_ ?_ h
  · intro text place ts hcolon
    rw [objectField_missedColon reader hcolon]
    simp [spoilObject, unexpected]
  · intro ts hname
    rw [objectField]
    split
    · next text htext => exact absurd htext (hname text)
    · simp [spoilObject, unexpected]

/-- **Literals that record nothing** are derived. -/
theorem exists_value {levels : Nat} (h : (literal levels ts).diagnostics = []) :
    ∃ v : Value, (v.Fits ∧ v.overflow levels = [])
      ∧ ts = v.tokens ++ (literal levels ts).rest
      ∧ (literal levels ts).value = v.cut levels := by
  induction levels generalizing ts with
  | zero => simp [literal, tooDeep] at h
  | succ levels ih =>
    -- The next token decides; those that start no literal leave a diagnostic.
    rcases ts with _ | ⟨⟨kind, place⟩, ts⟩
    · simp [literal, unexpected] at h
    · cases kind with
      | int digits =>
        exact ⟨.int place digits, by simp [Value.Fits, Value.overflow], by
          simp [literal, Value.tokens], by simp [literal, Value.cut, Value.meaning]⟩
      | string contents =>
        exact ⟨.string place contents, by simp [Value.Fits, Value.overflow], by
          simp [literal, Value.tokens], by simp [literal, Value.cut, Value.meaning]⟩
      | name text =>
        exact ⟨.word place text, by simp [Value.Fits, Value.overflow], by
          simp [literal, Value.tokens],
          by simp [literal, Value.cut, Value.meaning, literalOfName]⟩
      | dollar =>
        rcases ts with _ | ⟨⟨kind, namePlace⟩, ts⟩
        · simp [literal, variableName, unexpected] at h
        · cases kind with
          | name text =>
            exact ⟨.variableRef place namePlace text, by simp [Value.Fits, Value.overflow], by
              simp [literal, variableName, Value.tokens],
              by simp [literal, variableName, Value.cut, Value.meaning]⟩
          | _ => simp [literal, variableName, unexpected] at h
      | opening shape =>
        cases shape with
        | paren => simp [literal, skipUnexpected] at h
        | bracket =>
          have hitem : ∀ ts, ((literal levels ts).map Item.kept).diagnostics = [] →
              ∃ v : Value, (v.Fits ∧ v.overflow levels = [])
                ∧ ts = v.tokens ++ ((literal levels ts).map Item.kept).rest
                ∧ ((literal levels ts).map Item.kept).value = .kept (v.cut levels) := by
            intro ts hts
            obtain ⟨v, hv, htokens, hvalue⟩ := ih hts
            exact ⟨v, hv, htokens, by rw [map_value, hvalue]⟩
          obtain ⟨g, hg, hall, htokens, hvalue⟩ := exists_group
            (show Construct.listValue.shape = .bracket from rfl) hitem
            (show nextKind (⟨.opening .bracket, place⟩ :: ts) = _ from rfl) h
          refine ⟨.list g, ⟨(Value.fits_list g).2 ⟨hg, fun v hv => (hall v hv).1⟩, ?_⟩, ?_, ?_⟩
          · rw [Value.overflow, List.flatMap_eq_nil_iff]
            exact fun v hv => (hall v hv).2
          · rw [Value.tokens_list]
            exact htokens
          · rw [Value.cut]
            exact congrArg (fun items => Literal.array items.kept) hvalue
        | brace =>
          obtain ⟨g, hg, hall, htokens, hvalue⟩ := exists_group
            (show Construct.objectValue.shape = .brace from rfl)
            (fun ts hts => exists_objectField (fun _ => ih) hts)
            (show nextKind (⟨.opening .brace, place⟩ :: ts) = _ from rfl) h
          refine ⟨.object g, ⟨(Value.fits_object g).2 ⟨hg, fun l hl => (hall l hl).1⟩, ?_⟩, ?_, ?_⟩
          · rw [Value.overflow, List.flatMap_eq_nil_iff]
            exact fun l hl => (hall l hl).2
          · rw [Value.tokens_object]
            exact htokens
          · rw [Value.cut, ← Entries.ofPairs_eq_lastWrites]
            exact congrArg objectLiteral hvalue
      | closing shape => simp [literal, unexpected] at h
      | eof => simp [literal, unexpected] at h
      | _ => simp [literal, skipUnexpected] at h

/-! ## Selections -/

/-- An argument that records nothing is derived. -/
theorem exists_argument {levels : Nat} (h : (argument (literal levels) ts).diagnostics = []) :
    ∃ l : Labelled Value, (l.value.Fits ∧ l.value.overflow levels = [])
      ∧ ts = l.tokens Value.tokens ++ (argument (literal levels) ts).rest
      ∧ (argument (literal levels) ts).value = .kept ⟨l.name, l.value.cut levels⟩ := by
  refine exists_labelled Argument.mk (fun _ => exists_value) (fun _ _ _ _ => rfl) ?_ ?_ h
  · intro text place ts hcolon
    rw [argument_missedColon _ hcolon]
    simp [unexpected]
  · intro ts hname
    rw [argument]
    split
    · next text htext => exact absurd htext (hname text)
    · simp [skipUnexpected]

/-- Arguments that record nothing are derived, if there are any. -/
theorem exists_arguments {levels : Nat} (h : (arguments (literal levels) ts).diagnostics = []) :
    ∃ given : Option (Group .paren (Labelled Value)),
      (∀ g ∈ given, g.Fits ∧ ∀ l ∈ g.items, l.value.Fits)
      ∧ (given.elim [] Group.items).flatMap (fun l => l.value.overflow levels) = []
      ∧ ts = given.elim [] (Group.tokens (Labelled.tokens Value.tokens))
          ++ (arguments (literal levels) ts).rest
      ∧ (arguments (literal levels) ts).value
          = (given.elim [] Group.items).map fun l => ⟨l.name, l.value.cut levels⟩ := by
  by_cases hopening : nextKind ts = .opening .paren
  · rw [arguments, if_pos hopening, rounds_eq] at h ⊢
    obtain ⟨g, hg, hall, htokens, hvalue⟩ := exists_group
      (show Construct.fieldArguments.shape = .paren from rfl)
      (fun ts hts => exists_argument hts) hopening h
    refine ⟨some g, ?_, ?_, htokens, by rw [map_value, hvalue]; rfl⟩
    · rintro _ ⟨⟩
      exact ⟨hg, fun l hl => (hall l hl).1⟩
    · rw [List.flatMap_eq_nil_iff]
      exact fun l hl => (hall l hl).2
  · rw [arguments, if_neg hopening]
    exact ⟨none, by simp, rfl, rfl, rfl⟩

/-- **Selection sets that record nothing** are derived. -/
theorem exists_selection {levels : Nat} (hopening : nextKind ts = .opening .brace)
    (h : (selectionSet levels ts).diagnostics = []) :
    ∃ s : Selection, (s.Fits ∧ (∀ f ∈ s.items, f.Fits) ∧ s.overflow levels = [])
      ∧ ts = s.tokens Field.tokens ++ (selectionSet levels ts).rest
      ∧ (selectionSet levels ts).value = s.cut levels := by
  induction levels generalizing ts with
  | zero => simp [selectionSet, tooDeep] at h
  | succ levels ih =>
    have hnested : ∀ ts, (nested (selectionSet levels) ts).diagnostics = [] →
        ∃ inner : Option Selection, (∀ s ∈ inner, s.Fits ∧ ∀ f ∈ s.items, f.Fits)
          ∧ inner.elim [] (Selection.overflow levels) = []
          ∧ ts = inner.elim [] (Group.tokens Field.tokens)
              ++ (nested (selectionSet levels) ts).rest
          ∧ (nested (selectionSet levels) ts).value = inner.map (Selection.cut levels) := by
      intro ts hts
      by_cases hbrace : nextKind ts = .opening .brace
      · rw [nested, if_pos hbrace] at hts ⊢
        obtain ⟨s, ⟨hs, hfields, hdeep⟩, htokens, hvalue⟩ := ih hbrace hts
        refine ⟨some s, ?_, hdeep, htokens, by rw [map_value, hvalue]; rfl⟩
        rintro _ ⟨⟩
        exact ⟨hs, hfields⟩
      · rw [nested, if_neg hbrace]
        exact ⟨none, by simp, rfl, rfl, rfl⟩
    -- A field goes on as far as its brackets do, so both of its parts may be missing.
    have hfield : ∀ ts, (field (literal levels) (selectionSet levels) ts).diagnostics = [] →
        ∃ f : Field, (f.Fits ∧ (f.argumentItems.flatMap fun l => l.value.overflow levels)
            ++ f.selection.elim [] (Selection.overflow levels) = [])
          ∧ ts = f.tokens ++ (field (literal levels) (selectionSet levels) ts).rest
          ∧ (field (literal levels) (selectionSet levels) ts).value
            = .kept ⟨f.name, f.argumentItems.map fun l => ⟨l.name, l.value.cut levels⟩,
                f.selection.map (Selection.cut levels)⟩ := by
      intro ts hts
      rcases ts with _ | ⟨⟨kind, place⟩, ts⟩
      · simp [field, skipUnexpected] at hts
      · cases kind with
        | name text =>
          have hread : field (literal levels) (selectionSet levels) (⟨.name text, place⟩ :: ts)
              = (arguments (literal levels) ts).andThen fun given ts =>
                (nested (selectionSet levels) ts).map fun inner =>
                  .kept ⟨text, given, inner⟩ := rfl
          rw [hread, andThen_diagnostics, map_diagnostics, List.append_eq_nil_iff] at hts
          obtain ⟨given, hgiven, hdeep, htokens, hvalue⟩ := exists_arguments hts.1
          obtain ⟨inner, hinner, hdeeper, htail, hmeaning⟩ := hnested _ hts.2
          refine ⟨⟨place, text, given, inner⟩,
            ⟨(Field.fits_iff _).2 ⟨hgiven, hinner⟩, List.append_eq_nil_iff.2 ⟨hdeep, hdeeper⟩⟩,
            ?_, ?_⟩
          · rw [hread, Field.tokens_eq, List.cons_append, List.append_assoc, andThen_rest, map_rest,
              ← htail, ← htokens]
          · rw [hread, andThen_value, map_value, hvalue, hmeaning]
            rfl
        | _ => simp [field, skipUnexpected] at hts
    obtain ⟨s, hs, hall, htokens, hvalue⟩ := exists_group
      (show Construct.selectionSet.shape = .brace from rfl) hfield hopening h
    refine ⟨s, ⟨hs, fun f hf => (hall f hf).1, ?_⟩, htokens, ?_⟩
    · rw [Selection.overflow, List.flatMap_eq_nil_iff]
      exact fun f hf => (hall f hf).2
    · rw [selectionSet, map_value, rounds_eq, hvalue]
      rfl

/-! ## Type references -/

/-- An exclamation mark is there or not. -/
theorem exists_mark (ts : List Token) :
    ∃ mark, ts = TypeTree.markTokens mark ++ (nullability ts).rest
      ∧ (nullability ts).diagnostics = []
      ∧ (nullability ts).value = TypeTree.nullability mark := by
  by_cases hbang : nextKind ts = .bang
  · obtain ⟨place, hts⟩ := eq_cons_of_nextKind hbang (by simp)
    rw [nullability, if_pos hbang]
    exact ⟨some place, hts, rfl, rfl⟩
  · rw [nullability, if_neg hbang]
    exact ⟨none, rfl, rfl, rfl⟩

/-- **Type references that record nothing** are derived. -/
theorem exists_typeTree {levels : Nat} (h : (typeReference levels ts).diagnostics = []) :
    ∃ t : TypeTree, t.overflow levels = [] ∧ ts = t.tokens ++ (typeReference levels ts).rest
      ∧ (typeReference levels ts).value = t.cut levels := by
  induction levels generalizing ts with
  | zero => simp [typeReference, tooDeep] at h
  | succ levels ih =>
    rcases ts with _ | ⟨⟨kind, place⟩, ts⟩
    · simp [typeReference, unexpected] at h
    · cases kind with
      | name text =>
        obtain ⟨mark, hmark, -, hvalue⟩ := exists_mark ts
        have hread : typeReference (levels + 1) (⟨.name text, place⟩ :: ts)
            = (nullability ts).map fun mark => some (.named text mark) := rfl
        refine ⟨.named place text mark, rfl, ?_, ?_⟩
        · rw [hread, TypeTree.tokens, List.cons_append, map_rest, ← hmark]
        · rw [hread, map_value, hvalue]
          rfl
      | opening shape =>
        cases shape with
        | bracket =>
          have hread : typeReference (levels + 1) (⟨.opening .bracket, place⟩ :: ts)
              = (typeReference levels ts).andThen fun element ts =>
                (close .listType ts).andThen fun _ ts =>
                  (nullability ts).map fun mark => some (.list element mark) := rfl
          rw [hread] at h ⊢
          simp only [andThen_diagnostics, List.append_eq_nil_iff] at h
          obtain ⟨helement, hclose, -⟩ := h
          -- All three of element, bracket and mark are read without a diagnostic.
          obtain ⟨element, hdeep, htokens, hvalue⟩ := ih helement
          obtain ⟨closing, hclosing⟩ := exists_close hclose
          obtain ⟨mark, hmark, -, hnull⟩ :=
            exists_mark (close .listType (typeReference levels ts).rest).rest
          refine ⟨.list place element closing mark, hdeep, ?_, ?_⟩
          · rw [TypeTree.tokens, List.cons_append, List.append_assoc, List.cons_append]
            simp only [andThen_rest, map_rest]
            rw [← hmark]
            exact congrArg _ (htokens.trans (congrArg _ hclosing))
          · simp only [andThen_value, map_value]
            rw [hvalue, hnull]
            rfl
        | _ => simp [typeReference, unexpected] at h
      | _ => simp [typeReference, unexpected] at h

/-! ## Definitions -/

/-- A declared variable that records nothing is derived. -/
theorem exists_variable (h : (variableDefinition ts).diagnostics = []) :
    ∃ v : Variable, v.overflow = [] ∧ ts = v.tokens ++ (variableDefinition ts).rest
      ∧ (variableDefinition ts).value = .kept v.cut := by
  rcases ts with _ | ⟨⟨kind, dollar⟩, ts⟩
  · simp [variableDefinition, skipUnexpected] at h
  · cases kind with
    | dollar =>
      rcases ts with _ | ⟨⟨kind, place⟩, ts⟩
      · simp [variableDefinition, variableName, unexpected, andThen] at h
      · cases kind with
        | name text =>
          -- The type goes with the colon.
          by_cases hcolon : nextKind ts = .colon
          · obtain ⟨colon, hts⟩ := eq_cons_of_nextKind hcolon (by simp)
            have hread : variableDefinition (⟨.dollar, dollar⟩ :: ⟨.name text, place⟩ :: ts)
                = (typeReference maxNesting ts.tail).map fun type => .kept ⟨text, type⟩ := by
              simp [variableDefinition, variableName, andThen, hcolon, map]
            rw [hread] at h ⊢
            obtain ⟨type, hdeep, htokens, hvalue⟩ := exists_typeTree h
            refine ⟨⟨dollar, place, text, some (colon, type)⟩, hdeep, ?_, ?_⟩
            · rw [Variable.tokens, List.cons_append, List.cons_append, Option.elim,
                List.cons_append, map_rest, ← htokens, ← hts]
            · rw [map_value, hvalue]
              rfl
          · have hread : variableDefinition (⟨.dollar, dollar⟩ :: ⟨.name text, place⟩ :: ts)
                = ⟨.kept ⟨text, none⟩, [], ts⟩ := by
              simp [variableDefinition, variableName, andThen, hcolon]
            rw [hread]
            exact ⟨⟨dollar, place, text, none⟩, rfl, rfl, rfl⟩
        | _ => simp [variableDefinition, variableName, unexpected, andThen] at h
    | _ => simp [variableDefinition, skipUnexpected] at h

/-- Variables of an operation that record nothing are derived, if there are any. -/
theorem exists_variables (h : (variableDefinitions ts).diagnostics = []) :
    ∃ declared : Option (Group .paren Variable), (∀ g ∈ declared, g.Fits)
      ∧ (declared.elim [] Group.items).flatMap Variable.overflow = []
      ∧ ts = declared.elim [] (Group.tokens Variable.tokens) ++ (variableDefinitions ts).rest
      ∧ (variableDefinitions ts).value = (declared.elim [] Group.items).map Variable.cut := by
  by_cases hopening : nextKind ts = .opening .paren
  · rw [variableDefinitions, if_pos hopening, rounds_eq] at h ⊢
    obtain ⟨g, hg, hall, htokens, hvalue⟩ := exists_group
      (show Construct.variableDefinitions.shape = .paren from rfl)
      (fun ts hts => exists_variable hts) hopening h
    refine ⟨some g, ?_, ?_, htokens, by rw [map_value, hvalue]; rfl⟩
    · rintro _ ⟨⟩
      exact hg
    · rw [List.flatMap_eq_nil_iff]
      exact hall
  · rw [variableDefinitions, if_neg hopening]
    exact ⟨none, by simp, rfl, rfl, rfl⟩

/-- What a field of a type takes is derived where skipping it records nothing: it is there exactly
if its opening bracket is. -/
theorem exists_takes (h : (argumentDefinitions ts).diagnostics = []) :
    ∃ takes : Option (Enclosed .paren), (∀ e ∈ takes, e.tokens.length ≤ maxItems)
      ∧ ts = takes.elim [] Enclosed.tokens ++ (argumentDefinitions ts).rest := by
  by_cases hopening : nextKind ts = .opening .paren
  · rw [argumentDefinitions, if_pos hopening] at h ⊢
    obtain ⟨opening, inside, closing, hts, hbalanced, hinside⟩ :=
      exists_group_of_skipGroup hopening h
    refine ⟨some ⟨opening, inside, closing, hbalanced⟩, ?_, ?_⟩
    · rintro _ ⟨⟩
      rwa [Enclosed.tokens, length_enclosed]
    · rw [Option.elim, Enclosed.tokens, List.cons_append, List.append_assoc]
      exact hts
  · rw [argumentDefinitions, if_neg hopening]
    exact ⟨none, by simp, rfl⟩

/-- A field of a type that records nothing is derived. -/
theorem exists_fieldType (h : (fieldDefinition ts).diagnostics = []) :
    ∃ f : FieldType, ((∀ e ∈ f.takes, e.tokens.length ≤ maxItems)
        ∧ f.type.overflow maxNesting = [])
      ∧ ts = f.tokens ++ (fieldDefinition ts).rest ∧ (fieldDefinition ts).value = .kept f.name := by
  rcases ts with _ | ⟨⟨kind, place⟩, ts⟩
  · simp [fieldDefinition, skipUnexpected] at h
  · cases kind with
    | name text =>
      have hread : fieldDefinition (⟨.name text, place⟩ :: ts)
          = (argumentDefinitions ts).andThen fun _ ts =>
            if nextKind ts = .colon then
              (typeReference maxNesting ts.tail).map fun _ => .kept text
            else unexpected (.fieldColon text) (.kept text) ts := rfl
      rw [hread, andThen_diagnostics, List.append_eq_nil_iff] at h
      obtain ⟨hskip, hrest⟩ := h
      obtain ⟨takes, hlen, htakes⟩ := exists_takes hskip
      -- Without the colon something would have been recorded.
      by_cases hcolon : nextKind (argumentDefinitions ts).rest = .colon
      · obtain ⟨colon, hts⟩ := eq_cons_of_nextKind hcolon (by simp)
        rw [if_pos hcolon] at hrest
        obtain ⟨type, hdeep, htokens, -⟩ := exists_typeTree hrest
        rw [hread]
        refine ⟨⟨place, text, takes, colon, type⟩, ⟨hlen, hdeep⟩, ?_, ?_⟩
        · rw [FieldType.tokens, List.cons_append, List.append_assoc, List.cons_append,
            andThen_rest, if_pos hcolon, map_rest, ← htokens, ← hts, ← htakes]
        · rw [andThen_value, if_pos hcolon]
          rfl
      · simp [hcolon, unexpected] at hrest
    | _ => simp [fieldDefinition, skipUnexpected] at h

/-- The selection set of an operation that records nothing is derived. -/
theorem exists_rootSelection {kind : OperationKind}
    (h : (rootSelection kind ts).diagnostics = []) :
    ∃ s : Selection, (s.Fits ∧ (∀ f ∈ s.items, f.Fits) ∧ s.overflow maxNesting = [])
      ∧ ts = s.tokens Field.tokens ++ (rootSelection kind ts).rest
      ∧ (rootSelection kind ts).value = s.cut maxNesting := by
  by_cases hopening : nextKind ts = .opening .brace
  · rw [rootSelection, if_pos hopening] at h ⊢
    exact exists_selection hopening h
  · simp [rootSelection, hopening, unexpected] at h

/-- The name of an operation is there or not. -/
theorem exists_name (ts : List Token) :
    ∃ name : Option (Span × String),
      ts = (name.elim [] fun (place, name) => [⟨.name name, place⟩]) ++ (name? ts).rest
      ∧ (name? ts).value = name.map Prod.snd := by
  rcases ts with _ | ⟨⟨kind, place⟩, ts⟩
  · exact ⟨none, rfl, rfl⟩
  · cases kind with
    | name text => exact ⟨some (place, text), rfl, rfl⟩
    | _ => exact ⟨none, rfl, rfl⟩

/-- An operation that records nothing is derived. -/
theorem exists_operation {kind : OperationKind} (keyword : Span)
    (h : (operation kind ts).diagnostics = []) :
    ∃ d : Definition, (d.Fits ∧ d.overflow = [])
      ∧ ⟨.name kind.keyword, keyword⟩ :: ts = d.tokens ++ (operation kind ts).rest
      ∧ GraphQuery.Definition.operation (operation kind ts).value = d.cut := by
  rw [operation] at h ⊢
  simp only [andThen_diagnostics, map_diagnostics, List.append_eq_nil_iff] at h
  obtain ⟨-, hdeclared, hselection⟩ := h
  obtain ⟨name, hname, hnameValue⟩ := exists_name ts
  obtain ⟨declared, hfits, hdeep, hvariables, hvariablesValue⟩ := exists_variables hdeclared
  obtain ⟨s, ⟨hs, hfields, hdeeper⟩, htokens, hvalue⟩ := exists_rootSelection hselection
  refine ⟨.operation kind keyword name declared s, ⟨⟨hfits, hs, hfields⟩, ?_⟩, ?_, ?_⟩
  · rw [Definition.overflow, hdeep, hdeeper]
    rfl
  · rw [Definition.tokens, List.cons_append, List.append_assoc, List.append_assoc]
    simp only [andThen_rest, map_rest]
    rw [← htokens, ← hvariables, ← hname]
  · simp only [andThen_value, map_value]
    rw [hnameValue, hvariablesValue, hvalue]
    rfl

/-- A type definition that records nothing is derived. -/
theorem exists_typeDefinition (keyword : Span) (h : (typeDefinition ts).diagnostics = []) :
    ∃ d : Definition, (d.Fits ∧ d.overflow = [])
      ∧ ⟨.name "type", keyword⟩ :: ts = d.tokens ++ (typeDefinition ts).rest
      ∧ (typeDefinition ts).value.map .typeDefinition = some d.cut := by
  rcases ts with _ | ⟨⟨kind, place⟩, ts⟩
  · simp [typeDefinition, unexpected] at h
  · cases kind with
    | name text =>
      by_cases hopening : nextKind ts = .opening .brace
      · have hread : typeDefinition (⟨.name text, place⟩ :: ts)
            = (items .typeDefinition fieldDefinition maxItems ts.tail).map fun fields =>
                some ⟨text, fields.kept⟩ := by
          simp [typeDefinition, hopening]
        rw [hread] at h ⊢
        obtain ⟨g, hg, hall, htokens, hvalue⟩ := exists_group
          (show Construct.typeDefinition.shape = .brace from rfl)
          (fun ts hts => exists_fieldType hts) hopening h
        refine ⟨.typeDefinition keyword place text g, ⟨⟨hg, fun f hf => (hall f hf).1⟩, ?_⟩, ?_, ?_⟩
        · rw [Definition.overflow, List.flatMap_eq_nil_iff]
          exact fun f hf => (hall f hf).2
        · rw [Definition.tokens, List.cons_append, List.cons_append, map_rest, ← htokens]
        · rw [map_value, hvalue]
          rfl
      · simp [typeDefinition, hopening, unexpected] at h
    | _ => simp [typeDefinition, unexpected] at h

/-- A keyword that starts a kind of operation is the keyword of that kind. -/
theorem keyword_of_ofKeyword? {text : String} {kind : OperationKind}
    (h : OperationKind.ofKeyword? text = some kind) : kind.keyword = text := by
  simpa using List.find?_some h

/-- **Definitions that record nothing** are derived. -/
theorem exists_definition (h : (definition ts).diagnostics = []) :
    ∃ d : Definition, (d.Fits ∧ d.overflow = []) ∧ ts = d.tokens ++ (definition ts).rest
      ∧ (definition ts).value = some d.cut := by
  rcases ts with _ | ⟨⟨kind, place⟩, ts⟩
  · simp [definition, skipUnexpected] at h
  · -- Whatever starts no definition would have been recorded as unexpected.
    cases kind with
    | opening shape =>
      cases shape with
      | brace =>
        have hread : definition (⟨.opening .brace, place⟩ :: ts)
            = (rootSelection .query (⟨.opening .brace, place⟩ :: ts)).map fun selection =>
                some (.operation ⟨.query, none, [], selection⟩) := rfl
        rw [hread] at h ⊢
        obtain ⟨s, ⟨hs, hfields, hdeep⟩, htokens, hvalue⟩ := exists_rootSelection h
        refine ⟨.anonymous s, ⟨⟨hs, hfields⟩, hdeep⟩, htokens, ?_⟩
        rw [map_value, hvalue]
        rfl
      | _ => simp [definition, skipUnexpected] at h
    | name keyword =>
      cases hkind : OperationKind.ofKeyword? keyword with
      | some kind =>
        have hread : definition (⟨.name keyword, place⟩ :: ts)
            = (operation kind ts).map fun operation => some (.operation operation) := by
          simp [definition, hkind]
        rw [hread] at h ⊢
        obtain ⟨d, hd, htokens, hvalue⟩ := exists_operation place h
        refine ⟨d, hd, ?_, by rw [map_value, hvalue]⟩
        rw [map_rest, ← htokens, keyword_of_ofKeyword? hkind]
      | none =>
        by_cases htype : keyword = "type"
        · subst htype
          have hread : definition (⟨.name "type", place⟩ :: ts)
              = (typeDefinition ts).map fun definition => definition.map .typeDefinition := by
            simp [definition, hkind]
          rw [hread] at h ⊢
          exact exists_typeDefinition place h
        · simp [definition, hkind, htype, skipUnexpected] at h
    | _ => simp [definition, skipUnexpected] at h

/-! ## Documents -/

/-- Definitions that record nothing are derived, up to the end of input. -/
theorem exists_definitions {budget : Nat} (h : (definitions budget ts).diagnostics = []) :
    ∃ ds : List Definition, ds.length ≤ budget ∧ (∀ d ∈ ds, d.Fits ∧ d.overflow = [])
      ∧ ts = ds.flatMap Definition.tokens ++ (definitions budget ts).rest
      ∧ nextKind (definitions budget ts).rest = .eof
      ∧ (definitions budget ts).value = ds.map Definition.cut := by
  induction budget generalizing ts with
  | zero =>
    by_cases heof : nextKind ts = .eof
    · rw [definitions, if_pos heof]
      exact ⟨[], by simp, by simp, rfl, heof, rfl⟩
    · simp [definitions, heof] at h
  | succ budget ih =>
    by_cases heof : nextKind ts = .eof
    · rw [definitions, if_pos heof]
      exact ⟨[], by simp, by simp, rfl, heof, rfl⟩
    · rw [definitions, if_neg heof] at h ⊢
      rw [andThen_diagnostics, map_diagnostics, List.append_eq_nil_iff] at h
      -- Neither the first definition nor the others record anything.
      obtain ⟨d, hd, htokens, hvalue⟩ := exists_definition h.1
      obtain ⟨ds, hlen, hall, htail, hend, hmore⟩ := ih h.2
      refine ⟨d :: ds, by simpa using hlen, List.forall_mem_cons.2 ⟨hd, hall⟩, ?_, hend, ?_⟩
      · rw [List.flatMap_cons, List.append_assoc, andThen_rest, map_rest, ← htail, ← htokens]
      · rw [andThen_value, map_value, hvalue, hmore]
        rfl

/-- **Documents that record nothing** are derived. -/
theorem exists_document (h : (document ts).diagnostics = []) :
    ∃ d : Document, (d.Fits ∧ d.overflow = []) ∧ ts = d.tokens ++ (document ts).rest
      ∧ nextKind (document ts).rest = .eof ∧ (document ts).value = d.cut := by
  obtain ⟨ds, hlen, hall, htokens, hend, hvalue⟩ := exists_definitions h
  refine ⟨⟨ds⟩, ⟨⟨hlen, fun d hd => (hall d hd).1⟩, ?_⟩, htokens, hend, ?_⟩
  · rw [Document.overflow, List.flatMap_eq_nil_iff]
    exact fun d hd => (hall d hd).2
  · rw [document, map_value, hvalue]
    rfl

end GraphQuery.Derivation
