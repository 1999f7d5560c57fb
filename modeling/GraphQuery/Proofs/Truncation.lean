import GraphQuery.Proofs.Acceptance
import GraphQuery.Proofs.Progress
import Mathlib.Data.List.DropRight
import Mathlib.Data.List.Forall2

/-! # Closing brackets lost at the end

A well-formed document that loses some of the closing brackets at its end loses nothing else: it is
read as the same document, and each of the lost brackets is reported, the innermost one first
(`ofTokens_rdrop_append`).

The proof compares two readings of the same tokens, which in one case go on with closing brackets
and in the other with the end of input. A reader **endures** the loss if the two readings agree
whenever the first one records nothing: they make the same of the tokens that they share, and each
bracket that the first one passes is reported by the second one. Readers that endure the loss may
be put one after the other, so that there is one short lemma for each of them. -/

namespace GraphQuery

/-- **A missing bracket**: what a closing bracket would have closed is reported to be open still at
the end of input. -/
def ReportsMissing (eof closer : Token) (d : Diagnostic) : Prop :=
  ∃ construct : Construct, closer.kind = .closing construct.shape ∧ d = .unclosed construct eof

namespace Reading

variable {α β : Type} {ending closers : List Token} {reader other : List Token → Reading α}

/-! ## Agreement up to lost brackets -/

/-- **Two readings agree** up to the loss of closing brackets, in place of which the second one has
found the end of input. They give the same value, and the second one has reported the brackets that
the first one has passed. -/
def Agree (ending closers : List Token) (whole cut : Reading α) : Prop :=
  ∃ left passed kept, closers = passed ++ kept ∧ whole.rest = left ++ kept
    ∧ cut.rest = left ++ ending ∧ cut.value = whole.value
    ∧ List.Forall₂ (ReportsMissing (nextToken ending)) passed cut.diagnostics

/-- **A reader endures** the loss of closing brackets where it records nothing. -/
def Endures (reader : List Token → Reading α) : Prop :=
  ∀ ⦃front closers ending : List Token⦄, (∀ t ∈ closers, t.kind.isClosing) →
    nextKind ending = .eof → (reader (front ++ closers)).diagnostics = [] →
    Agree ending closers (reader (front ++ closers)) (reader (front ++ ending))

/-- Changing the value changes nothing else. -/
theorem Agree.map {whole cut : Reading α} (h : Agree ending closers whole cut) (f : α → β) :
    Agree ending closers (whole.map f) (cut.map f) := by
  obtain ⟨left, passed, kept, hclosers, hwhole, hcut, hvalue, hreports⟩ := h
  exact ⟨left, passed, kept, hclosers, hwhole, hcut, congrArg f hvalue, hreports⟩

/-- Readings that agree still do after reading on. -/
theorem Agree.andThen {whole cut : Reading α} {f : α → List Token → Reading β}
    (h : Agree ending closers whole cut) (hf : ∀ value, Endures (f value))
    (hclosers : ∀ t ∈ closers, t.kind.isClosing) (hending : nextKind ending = .eof)
    (hd : (whole.andThen f).diagnostics = []) :
    Agree ending closers (whole.andThen f) (cut.andThen f) := by
  obtain ⟨left, passed, kept, rfl, hwhole, hcut, hvalue, hreports⟩ := h
  -- What is read next is what the first readings left, and only the kept brackets are at its end.
  rw [andThen_diagnostics, List.append_eq_nil_iff, hwhole] at hd
  obtain ⟨left', passed', kept', rfl, hwhole', hcut', hvalue', hreports'⟩ :=
    hf whole.value (fun t ht => hclosers t (List.mem_append_right _ ht)) hending hd.2
  refine ⟨left', passed ++ passed', kept', (List.append_assoc ..).symm, ?_, ?_, ?_, ?_⟩
  · rw [andThen_rest, hwhole, hwhole']
  · rw [andThen_rest, hcut, hvalue, hcut']
  · rw [andThen_value, andThen_value, hcut, hvalue, hwhole, hvalue']
  · rw [andThen_diagnostics, hcut, hvalue]
    exact List.rel_append hreports hreports'

namespace Endures

theorem map (h : Endures reader) (f : α → β) : Endures fun ts => (reader ts).map f :=
  fun _ _ _ hclosers hending hd => (h hclosers hending hd).map f

theorem andThen {f : α → List Token → Reading β} (h : Endures reader)
    (hf : ∀ value, Endures (f value)) : Endures fun ts => (reader ts).andThen f := by
  intro front closers ending hclosers hending hd
  have hfirst : (reader (front ++ closers)).diagnostics = [] := (List.append_eq_nil_iff.1 hd).1
  exact (h hclosers hending hfirst).andThen hf hclosers hending hd

/-- A reader that leaves everything. -/
theorem leave (value : α) : Endures fun ts => ⟨value, [], ts⟩ :=
  fun front closers _ _ _ _ => ⟨front, [], closers, rfl, rfl, rfl, rfl, .nil⟩

/-- A reader that leaves everything, the token before it included. -/
theorem leaveAfter (t : Token) (value : α) : Endures fun ts => ⟨value, [], t :: ts⟩ :=
  fun front closers _ _ _ _ => ⟨t :: front, [], closers, rfl, rfl, rfl, rfl, .nil⟩

/-- Where a reader always records something there is nothing to endure. -/
theorem of_ne_nil (h : ∀ ts, (reader ts).diagnostics ≠ []) : Endures reader :=
  fun _ _ _ _ _ hd => absurd hd (h _)

end Endures

/-! ## The next token -/

/-- What stands at closing brackets, or at the end of the list after them. -/
theorem nextKind_closers (h : ∀ t ∈ closers, t.kind.isClosing) :
    nextKind closers = .eof ∨ ∃ shape, nextKind closers = .closing shape := by
  rcases closers with _ | ⟨t, closers⟩
  · exact .inl rfl
  · have ht := h t List.mem_cons_self
    rw [nextKind_cons]
    cases hkind : t.kind with
    | closing shape => exact .inr ⟨shape, rfl⟩
    | _ => simp [hkind, Token.Kind.isClosing] at ht

/-- **A reader demands** a token where it records something at every closing bracket and at the end
of input. -/
def Demands (reader : List Token → Reading α) : Prop :=
  ∀ ts, (nextKind ts = .eof ∨ ∃ shape, nextKind ts = .closing shape) → (reader ts).diagnostics ≠ []

/-- A reader goes on demanding a token whatever is read after it. -/
theorem Demands.andThen (h : Demands reader) (f : α → List Token → Reading β) :
    Demands fun ts => (reader ts).andThen f :=
  fun ts hstop hd => h ts hstop (List.append_eq_nil_iff.1 hd).1

namespace Endures

/-- A reader that demands a token endures the loss if it does after each token. -/
theorem of_demands (h : Demands reader) (hcons : ∀ t, Endures fun ts => reader (t :: ts)) :
    Endures reader := by
  intro front closers ending hclosers hending hd
  rcases front with _ | ⟨t, front⟩
  · exact absurd hd (h closers (nextKind_closers hclosers))
  · exact hcons t hclosers hending hd

/-- A choice by the next token, which is no closing bracket in the first case. -/
theorem ite {k : Token.Kind} (h : ∀ t, t.kind = k → Endures fun ts => reader (t :: ts))
    (hother : Endures other) (heof : k ≠ .eof) (hclosing : ∀ shape, k ≠ .closing shape) :
    Endures fun ts => if nextKind ts = k then reader ts else other ts := by
  intro front closers ending hclosers hending hd
  beta_reduce at hd ⊢
  rcases front with _ | ⟨t, front⟩
  · -- Neither a closing bracket nor the end of input is of this kind.
    have hwhole : nextKind ([] ++ closers) ≠ k := by
      rcases nextKind_closers hclosers with hnext | ⟨shape, hnext⟩
      · rw [List.nil_append, hnext]
        exact heof.symm
      · rw [List.nil_append, hnext]
        exact (hclosing shape).symm
    have hcut : nextKind ([] ++ ending) ≠ k := by
      rw [List.nil_append, hending]
      exact heof.symm
    rw [if_neg hwhole] at hd ⊢
    rw [if_neg hcut]
    exact hother hclosers hending hd
  · rw [List.cons_append, List.cons_append, nextKind_cons, nextKind_cons] at *
    by_cases hkind : t.kind = k
    · rw [if_pos hkind] at hd ⊢
      rw [if_pos hkind]
      exact h t hkind hclosers hending hd
    · rw [if_neg hkind] at hd ⊢
      rw [if_neg hkind]
      exact @hother (t :: front) _ _ hclosers hending hd

end Endures

/-! ## Constructs -/

variable {construct : Construct} {item : List Token → Reading (Item α)}

/-- **The bracket that closes a construct** is reported where it is lost. -/
theorem endures_close (construct : Construct) : Endures (close construct) := by
  intro front closers ending hclosers hending hd
  rcases front with _ | ⟨t, front⟩
  · rcases closers with _ | ⟨closer, closers⟩
    · simp [close] at hd
    · -- The bracket is the one that is looked for, since nothing is recorded.
      obtain ⟨place, hts⟩ := Derivation.exists_close hd
      have hkind : closer.kind = .closing construct.shape := by
        rw [List.nil_append, List.cons.injEq] at hts
        rw [hts.1]
      refine ⟨[], [closer], closers, rfl, ?_, ?_, rfl, ?_⟩
      · simp [close, hkind]
      · simp [close, hending]
      · have hdiagnostics : (close construct ([] ++ ending)).diagnostics
            = [.unclosed construct (nextToken ending)] := by simp [close, hending]
        rw [hdiagnostics]
        exact .cons ⟨construct, hkind, rfl⟩ .nil
  · obtain ⟨place, hts⟩ := Derivation.exists_close hd
    have hkind : t.kind = .closing construct.shape := by
      rw [List.cons_append, List.cons.injEq] at hts
      rw [hts.1]
    have hread : ∀ ts, close construct (t :: ts) = ⟨(), [], ts⟩ := by
      intro ts
      simp [close, hkind]
    rw [List.cons_append, List.cons_append, hread, hread]
    exact ⟨front, [], closers, rfl, rfl, rfl, rfl, .nil⟩

/-- **The items of a construct** endure the loss if each of them does. -/
theorem endures_items (hitem : Endures item) (hdemands : Demands item) (budget : Nat) :
    Endures (items construct item budget) := by
  induction budget with
  | zero => exact .of_ne_nil fun ts => by simp [items_zero]
  | succ budget ih =>
    intro front closers ending hclosers hending hd
    rcases front with _ | ⟨t, front⟩
    · -- The construct ends here, and otherwise an item would be missed.
      have hends : construct.endsAt (nextKind closers) = true := by
        by_contra hgoes
        rw [Bool.not_eq_true] at hgoes
        have hstop := nextKind_closers hclosers
        have hcomma : nextKind closers ≠ .comma := by
          rcases hstop with hnext | ⟨shape, hnext⟩ <;> simp [hnext]
        rw [List.nil_append, items_item hgoes hcomma, andThen_diagnostics,
          List.append_eq_nil_iff] at hd
        exact hdemands closers hstop hd.1
      have hendsCut : construct.endsAt (nextKind ending) = true := by
        simp [hending, Construct.endsAt]
      rw [List.nil_append, items_end hends] at hd ⊢
      rw [List.nil_append, items_end hendsCut]
      exact (@endures_close construct [] _ _ hclosers hending hd).map _
    · -- Both readings have the same round.
      rw [List.cons_append] at hd ⊢
      rw [List.cons_append]
      by_cases hends : construct.endsAt t.kind = true
      · rw [items_end hends] at hd ⊢
        rw [items_end hends]
        exact (@endures_close construct (t :: front) _ _ hclosers hending hd).map _
      · rw [Bool.not_eq_true] at hends
        by_cases hcomma : t.kind = .comma
        · obtain ⟨kind, place⟩ := t
          obtain rfl : kind = .comma := hcomma
          rw [items_comma] at hd ⊢
          rw [items_comma]
          exact ih hclosers hending hd
        · have hround : ∀ ts, items construct item (budget + 1) (t :: ts) = _ :=
            fun ts => @items_item _ construct item budget (t :: ts) hends hcomma
          rw [hround] at hd ⊢
          rw [hround]
          have hfirst : (item (t :: front ++ closers)).diagnostics = [] :=
            (List.append_eq_nil_iff.1 hd).1
          refine (hitem hclosers hending hfirst).andThen (fun made => ?_) hclosers hending hd
          cases made with
          | kept value => exact ih.map _
          | skipped => exact ih
          | spoilt remark => exact .leave _

/-! ## Type references and literals -/

theorem endures_nullability : Endures nullability :=
  .ite (fun _ _ => .leave _) (.leave _) (by simp) (by simp)

theorem demands_typeReference (levels : Nat) : Demands (typeReference levels) := by
  intro ts hnext
  cases levels with
  | zero => simp [typeReference, tooDeep]
  | succ levels =>
    rcases hnext with hnext | ⟨shape, hnext⟩ <;> simp [typeReference, hnext, unexpected]

/-- **Type references** endure the loss. -/
theorem endures_typeReference (levels : Nat) : Endures (typeReference levels) := by
  induction levels with
  | zero => exact .of_ne_nil fun ts => by simp [typeReference, tooDeep]
  | succ levels ih =>
    refine .of_demands (demands_typeReference _) fun t => ?_
    obtain ⟨kind, place⟩ := t
    cases kind with
    | opening shape =>
      cases shape with
      | bracket =>
        exact ih.andThen fun element => (endures_close .listType).andThen fun _ =>
          endures_nullability.map _
      | _ => exact .of_ne_nil fun ts => by simp [typeReference, unexpected]
    | name text => exact endures_nullability.map _
    | _ => exact .of_ne_nil fun ts => by simp [typeReference, unexpected]

theorem demands_variableName : Demands variableName := by
  rintro ts (hnext | ⟨shape, hnext⟩) <;> simp [variableName, hnext, unexpected]

theorem endures_variableName : Endures variableName := by
  refine .of_demands demands_variableName fun t => ?_
  obtain ⟨kind, place⟩ := t
  cases kind with
  | name text => exact .leave _
  | _ => exact .of_ne_nil fun ts => by simp [variableName, unexpected]

theorem demands_objectField (value : List Token → Reading Literal) :
    Demands (objectField value) := by
  rintro ts (hnext | ⟨shape, hnext⟩) <;> simp [objectField, hnext, spoilObject, unexpected]

theorem endures_objectField {value : List Token → Reading Literal} (hvalue : Endures value) :
    Endures (objectField value) := by
  refine .of_demands (demands_objectField value) fun t => ?_
  obtain ⟨kind, place⟩ := t
  cases kind with
  | name key =>
    refine .ite (fun _ _ => hvalue.map _) (.of_ne_nil fun ts => ?_)
      (k := .colon) (by simp) (by simp)
    simp [spoilObject, unexpected]
  | _ => exact .of_ne_nil fun ts => by simp [objectField, spoilObject, unexpected]

theorem demands_literal (levels : Nat) : Demands (literal levels) := by
  intro ts hnext
  cases levels with
  | zero => simp [literal, tooDeep]
  | succ levels => rcases hnext with hnext | ⟨shape, hnext⟩ <;> simp [literal, hnext, unexpected]

/-- **Literals** endure the loss. -/
theorem endures_literal (levels : Nat) : Endures (literal levels) := by
  induction levels with
  | zero => exact .of_ne_nil fun ts => by simp [literal, tooDeep]
  | succ levels ih =>
    refine .of_demands (demands_literal _) fun t => ?_
    obtain ⟨kind, place⟩ := t
    cases kind with
    | opening shape =>
      cases shape with
      | paren => exact .of_ne_nil fun ts => by simp [literal, skipUnexpected]
      | bracket =>
        have hitem : Endures fun ts => (literal levels ts).map Item.kept := ih.map _
        exact (endures_items hitem (demands_literal levels) maxItems).map _
      | brace =>
        exact (endures_items (endures_objectField ih) (demands_objectField _) maxItems).map _
    | int digits => exact .leave _
    | string contents => exact .leave _
    | name text => exact .leave _
    | dollar => exact endures_variableName.map _
    | closing shape => exact .of_ne_nil fun ts => by simp [literal, unexpected]
    | eof => exact .of_ne_nil fun ts => by simp [literal, unexpected]
    | _ => exact .of_ne_nil fun ts => by simp [literal, skipUnexpected]

/-! ## Selections -/

theorem demands_argument (value : List Token → Reading Literal) : Demands (argument value) := by
  rintro ts (hnext | ⟨shape, hnext⟩) <;> simp [argument, hnext, skipUnexpected]

theorem endures_argument {value : List Token → Reading Literal} (hvalue : Endures value) :
    Endures (argument value) := by
  refine .of_demands (demands_argument value) fun t => ?_
  obtain ⟨kind, place⟩ := t
  cases kind with
  | name text =>
    refine .ite (fun _ _ => hvalue.map _) (.of_ne_nil fun ts => ?_)
      (k := .colon) (by simp) (by simp)
    simp [unexpected]
  | _ => exact .of_ne_nil fun ts => by simp [argument, skipUnexpected]

theorem endures_arguments {value : List Token → Reading Literal} (hvalue : Endures value) :
    Endures (arguments value) :=
  .ite (fun _ _ => (endures_items (endures_argument hvalue) (demands_argument _) maxItems).map _)
    (.leave _) (by simp) (by simp)

theorem demands_field (value : List Token → Reading Literal)
    (selection : List Token → Reading SelectionSet) : Demands (field value selection) := by
  rintro ts (hnext | ⟨shape, hnext⟩) <;> simp [field, hnext, skipUnexpected]

/-- A field endures the loss if its nested selection does after its opening bracket. -/
theorem endures_field {value : List Token → Reading Literal}
    {selection : List Token → Reading SelectionSet} (hvalue : Endures value)
    (hselection : ∀ t, Endures fun ts => selection (t :: ts)) :
    Endures (field value selection) := by
  refine .of_demands (demands_field value selection) fun t => ?_
  obtain ⟨kind, place⟩ := t
  cases kind with
  | name text =>
    refine (endures_arguments hvalue).andThen fun arguments => ?_
    exact .map (.ite (fun t _ => (hselection t).map _) (.leave _) (by simp) (by simp)) _
  | _ => exact .of_ne_nil fun ts => by simp [field, skipUnexpected]

/-- **Selection sets** endure the loss after their opening bracket. -/
theorem endures_selectionSet (levels : Nat) (t : Token) :
    Endures fun ts => selectionSet levels (t :: ts) := by
  induction levels generalizing t with
  | zero => exact .of_ne_nil fun ts => by simp [selectionSet, tooDeep]
  | succ levels ih =>
    exact (endures_items (endures_field (endures_literal levels) ih) (demands_field _ _)
      maxItems).map _

/-! ## Definitions -/

theorem demands_variableDefinition : Demands variableDefinition := by
  rintro ts (hnext | ⟨shape, hnext⟩) <;> simp [variableDefinition, hnext, skipUnexpected]

theorem endures_variableDefinition : Endures variableDefinition := by
  refine .of_demands demands_variableDefinition fun t => ?_
  obtain ⟨kind, place⟩ := t
  cases kind with
  | dollar =>
    refine endures_variableName.andThen fun name => ?_
    cases name with
    | none => exact .leave _
    | some name =>
      exact .ite (fun _ _ => (endures_typeReference maxNesting).map _) (.leave _) (by simp)
        (by simp)
  | _ => exact .of_ne_nil fun ts => by simp [variableDefinition, skipUnexpected]

theorem endures_variableDefinitions : Endures variableDefinitions :=
  .ite (fun _ _ => (endures_items endures_variableDefinition demands_variableDefinition
    maxItems).map _) (.leave _) (by simp) (by simp)

theorem endures_rootSelection (kind : OperationKind) : Endures (rootSelection kind) :=
  .ite (fun t _ => endures_selectionSet maxNesting t)
    (.of_ne_nil fun ts => by simp [unexpected]) (by simp) (by simp)

theorem endures_name? : Endures name? := by
  intro front closers ending hclosers hending hd
  rcases front with _ | ⟨⟨kind, place⟩, front⟩
  · have hleave : ∀ ts, (nextKind ts = .eof ∨ ∃ shape, nextKind ts = .closing shape) →
        name? ts = ⟨none, [], ts⟩ := by
      rintro ts (hnext | ⟨shape, hnext⟩) <;> simp [name?, hnext]
    rw [List.nil_append, List.nil_append, hleave closers (nextKind_closers hclosers),
      hleave ending (.inl hending)]
    exact @Endures.leave _ none [] _ _ hclosers hending rfl
  · cases kind with
    | name text => exact Endures.leave (some text) hclosers hending rfl
    | _ => exact Endures.leaveAfter _ none hclosers hending rfl

/-- An operation endures the loss after its keyword. -/
theorem endures_operation (kind : OperationKind) : Endures (operation kind) :=
  endures_name?.andThen fun _ => endures_variableDefinitions.andThen fun _ =>
    (endures_rootSelection kind).map _

theorem demands_fieldDefinition : Demands fieldDefinition := by
  rintro ts (hnext | ⟨shape, hnext⟩) <;> simp [fieldDefinition, hnext, skipUnexpected]

/-- Where a colon is next, none of the closing brackets at the end has been passed. -/
theorem exists_left_of_colon {front passed rest : List Token}
    (hclosers : ∀ t ∈ closers, t.kind.isClosing) (h : front ++ closers = passed ++ rest)
    (hcolon : nextKind rest = .colon) :
    ∃ place left, front = passed ++ ⟨.colon, place⟩ :: left
      ∧ rest = ⟨.colon, place⟩ :: left ++ closers := by
  obtain ⟨place, hcons⟩ := eq_cons_of_nextKind hcolon (by simp)
  have hnotMem : (⟨.colon, place⟩ : Token) ∉ closers := fun hmem => by
    simpa [Token.Kind.isClosing] using hclosers _ hmem
  rw [hcons] at h ⊢
  rcases List.append_eq_append_iff.1 h with ⟨between, -, hsplit⟩ | ⟨left, hfront, hrest⟩
  · -- The colon would be one of the closing brackets.
    rw [hsplit] at hnotMem
    exact absurd (List.mem_append_right _ List.mem_cons_self) hnotMem
  · rcases List.cons_eq_append_iff.1 hrest with ⟨-, hsplit⟩ | ⟨left, rfl, hrest⟩
    · rw [hsplit] at hnotMem
      exact absurd List.mem_cons_self hnotMem
    · exact ⟨place, left, hfront, by rw [hrest, List.cons_append]⟩

/-- Fields of a type endure the loss. What a field takes is not at the end, for a colon follows
it. -/
theorem endures_fieldDefinition : Endures fieldDefinition := by
  refine .of_demands demands_fieldDefinition fun t => ?_
  obtain ⟨kind, place⟩ := t
  cases kind with
  | name text =>
    intro front closers ending hclosers hending hd
    have hread : ∀ ts, fieldDefinition (⟨.name text, place⟩ :: ts)
        = (argumentDefinitions ts).andThen fun _ ts =>
          if nextKind ts = .colon then
            (typeReference maxNesting ts.tail).map fun _ => .kept text
          else unexpected (.fieldColon text) (.kept text) ts := fun _ => rfl
    beta_reduce at hd ⊢
    rw [hread] at hd ⊢
    rw [hread]
    obtain ⟨hskip, htype⟩ := List.append_eq_nil_iff.1 hd
    have hcolon : nextKind (argumentDefinitions (front ++ closers)).rest = .colon := by
      by_contra hmissed
      beta_reduce at htype
      rw [if_neg hmissed] at htype
      simp [unexpected] at htype
    obtain ⟨takes, hlen, htakes⟩ := Derivation.exists_takes hskip
    obtain ⟨colon, left, rfl, hrest⟩ := exists_left_of_colon hclosers htakes hcolon
    -- What the field takes is skipped in the same way whatever comes after it.
    have hcut : argumentDefinitions (takes.elim [] Derivation.Enclosed.tokens
        ++ ⟨.colon, colon⟩ :: left ++ ending) = ⟨(), [], ⟨.colon, colon⟩ :: left ++ ending⟩ := by
      rw [List.append_assoc]
      exact Derivation.argumentDefinitions_tokens hlen (by simp)
    have hagree : Agree ending closers
        (argumentDefinitions
          (takes.elim [] Derivation.Enclosed.tokens ++ ⟨.colon, colon⟩ :: left ++ closers))
        (argumentDefinitions
          (takes.elim [] Derivation.Enclosed.tokens ++ ⟨.colon, colon⟩ :: left ++ ending)) := by
      rw [hcut]
      exact ⟨⟨.colon, colon⟩ :: left, [], closers, rfl, hrest, rfl, rfl, .nil⟩
    refine hagree.andThen (fun _ => ?_) hclosers hending hd
    exact .ite (fun _ _ => (endures_typeReference maxNesting).map _)
      (.of_ne_nil fun ts => by simp [unexpected]) (by simp) (by simp)
  | _ => exact .of_ne_nil fun ts => by simp [fieldDefinition, skipUnexpected]

theorem endures_typeDefinition : Endures typeDefinition := by
  have hdemands : Demands typeDefinition := by
    rintro ts (hnext | ⟨shape, hnext⟩) <;> simp [typeDefinition, hnext, unexpected]
  refine .of_demands hdemands fun t => ?_
  obtain ⟨kind, place⟩ := t
  cases kind with
  | name text =>
    refine .ite (fun _ _ => ?_) (.of_ne_nil fun ts => ?_) (k := .opening .brace) (by simp) (by simp)
    · exact (endures_items endures_fieldDefinition demands_fieldDefinition maxItems).map _
    · simp [unexpected]
  | _ => exact .of_ne_nil fun ts => by simp [typeDefinition, unexpected]

theorem demands_definition : Demands definition := by
  rintro ts (hnext | ⟨shape, hnext⟩) <;> simp [definition, hnext, skipUnexpected]

/-- **Definitions** endure the loss. -/
theorem endures_definition : Endures definition := by
  refine .of_demands demands_definition fun t => ?_
  obtain ⟨kind, place⟩ := t
  cases kind with
  | opening shape =>
    cases shape with
    | brace => exact (endures_selectionSet maxNesting _).map _
    | _ => exact .of_ne_nil fun ts => by simp [definition, skipUnexpected]
  | name keyword =>
    cases hkind : OperationKind.ofKeyword? keyword with
    | some kind =>
      have hread : (fun ts => definition (⟨.name keyword, place⟩ :: ts))
          = fun ts => (operation kind ts).map fun operation => some (.operation operation) := by
        funext ts
        simp [definition, hkind]
      rw [hread]
      exact (endures_operation kind).map _
    | none =>
      by_cases htype : keyword = "type"
      · subst htype
        have hread : (fun ts => definition (⟨.name "type", place⟩ :: ts))
            = fun ts => (typeDefinition ts).map fun definition =>
              definition.map .typeDefinition := by
          funext ts
          simp [definition, hkind]
        rw [hread]
        exact endures_typeDefinition.map _
      · exact .of_ne_nil fun ts => by simp [definition, hkind, htype, skipUnexpected]
  | _ => exact .of_ne_nil fun ts => by simp [definition, skipUnexpected]

/-! ## Documents -/

/-- A reader that stops at the end of input endures the loss if what it does otherwise demands a
token. -/
theorem Endures.untilEof (h : Endures reader) (hdemands : Demands reader) (value : α) :
    Endures fun ts => if nextKind ts = .eof then ⟨value, [], ts⟩ else reader ts := by
  intro front closers ending hclosers hending hd
  beta_reduce at hd ⊢
  by_cases heof : nextKind (front ++ closers) = .eof
  · have hcut : nextKind (front ++ ending) = .eof := by
      cases front with
      | nil => exact hending
      | cons t front => exact heof
    rw [if_pos heof, if_pos hcut]
    exact Endures.leave value hclosers hending rfl
  · rw [if_neg heof] at hd ⊢
    have hcut : nextKind (front ++ ending) ≠ .eof := by
      cases front with
      | nil => exact absurd hd (hdemands closers (nextKind_closers hclosers))
      | cons t front => exact heof
    rw [if_neg hcut]
    exact h hclosers hending hd

/-- Definitions in a row endure the loss. -/
theorem endures_definitions (budget : Nat) : Endures (definitions budget) := by
  induction budget with
  | zero => exact .untilEof (.of_ne_nil fun ts => by simp) (fun ts _ => by simp) []
  | succ budget ih =>
    have hmore : Endures fun ts => (definition ts).andThen fun first ts =>
        (definitions budget ts).map fun more => first.toList ++ more :=
      endures_definition.andThen fun first => ih.map _
    exact hmore.untilEof (Demands.andThen demands_definition _) []

/-- A well-formed document is read up to the end of input, with or without an end of input
written. -/
theorem document_eq_of_append {ts : List Token} (hends : ∀ t ∈ ts, t.kind ≠ .eof)
    (hending : nextKind ending = .eof) (h : (document (ts ++ ending)).diagnostics = []) :
    document ts = ⟨(document (ts ++ ending)).value, [], []⟩ := by
  obtain ⟨d, ⟨hfits, hdeep⟩, htokens, hrest, hvalue⟩ := Derivation.exists_document h
  -- Both divide the tokens at the first end of input.
  have hts : ts = d.tokens := by
    have hbefore := congrArg beforeEof htokens
    rwa [beforeEof_append hends hending,
      beforeEof_append (fun t ht => Derivation.Document.kind_ne_eof ht) hrest] at hbefore
  have hread : document (d.tokens ++ []) = _ :=
    Derivation.document_tokens hfits (by simp [hdeep]) rfl
  rw [hvalue, hts]
  simpa [hdeep] using hread

end Reading

/-- The closing brackets at the end of a list of tokens. -/
def trailingClosers (ts : List Token) : List Token := ts.rtakeWhile fun t => t.kind.isClosing

/-- The last tokens of a list are closing brackets, as long as there are no more of them than there
are closing brackets at its end. -/
theorem isClosing_of_mem_rtake {ts : List Token} {k : Nat} (hk : k ≤ (trailingClosers ts).length) :
    ∀ t ∈ ts.rtake k, t.kind.isClosing := by
  have hsuffix : trailingClosers ts <:+ ts := List.rtakeWhile_suffix _ ts
  have hlen : (ts.rtake k).length ≤ (trailingClosers ts).length := by
    rw [List.rtake, List.length_drop]
    omega
  have hmem : ts.rtake k <:+ trailingClosers ts :=
    List.suffix_of_suffix_length_le (List.drop_suffix _ ts) hsuffix hlen
  intro t ht
  have hlast : t ∈ ts.rtakeWhile fun t => t.kind.isClosing := hmem.subset ht
  have hclosing := List.mem_rtakeWhile_imp hlast
  exact hclosing

/-- **Closing brackets lost at the end** of a well-formed document cost nothing else. Whatever
number of those at its end is missing, the same document is read, and there is one diagnostic for
each of them: that what it would have closed is still open, at the end of input, the innermost one
first. -/
theorem ofTokens_rdrop_append {ts ending ending' : List Token} (hends : ∀ t ∈ ts, t.kind ≠ .eof)
    (hending : nextKind ending = .eof) (hvalid : (Parsed.ofTokens (ts ++ ending)).diagnostics = [])
    {k : Nat} (hk : k ≤ (trailingClosers ts).length) (hending' : nextKind ending' = .eof) :
    (Parsed.ofTokens (ts.rdrop k ++ ending')).document = (Parsed.ofTokens (ts ++ ending)).document
      ∧ (Parsed.ofTokens (ts.rdrop k ++ ending')).diagnostics.length = k
      ∧ List.Forall₂ (ReportsMissing (nextToken ending')) (ts.rtake k)
          (Parsed.ofTokens (ts.rdrop k ++ ending')).diagnostics := by
  have hwhole := Reading.document_eq_of_append hends hending hvalid
  have hsplit : ts.rdrop k ++ ts.rtake k = ts := List.take_append_drop _ ts
  have hendures : Reading.Endures Reading.document :=
    (Reading.endures_definitions maxItems).map Document.mk
  obtain ⟨left, passed, kept, hclosers, hrest, -, hvalue, hreports⟩ :=
    @hendures (ts.rdrop k) _ _ (isClosing_of_mem_rtake hk) hending'
      (by rw [hsplit, hwhole])
  -- The whole document is read to its end, so that every closing bracket has been passed.
  rw [hsplit, hwhole] at hrest hvalue
  obtain ⟨-, rfl⟩ := List.append_eq_nil_iff.1 hrest.symm
  rw [List.append_nil] at hclosers
  subst hclosers
  refine ⟨hvalue, ?_, hreports⟩
  have hle : k ≤ ts.length := hk.trans (List.rtakeWhile_suffix _ ts).length_le
  rw [Parsed.ofTokens, ← hreports.length_eq, List.rtake, List.length_drop]
  omega

/-- The tokens of `{f(a:[1])}`, which ends with three closing brackets. -/
def listArgument : List Token :=
  [⟨.opening .brace, ⟨0, 1⟩⟩, ⟨.name "f", ⟨1, 2⟩⟩, ⟨.opening .paren, ⟨2, 3⟩⟩, ⟨.name "a", ⟨3, 4⟩⟩,
    ⟨.colon, ⟨4, 5⟩⟩, ⟨.opening .bracket, ⟨5, 6⟩⟩, ⟨.int "1", ⟨6, 7⟩⟩, ⟨.closing .bracket, ⟨7, 8⟩⟩,
    ⟨.closing .paren, ⟨8, 9⟩⟩, ⟨.closing .brace, ⟨9, 10⟩⟩]

/-- All of its closing brackets may be lost. -/
theorem ofTokens_listArgument_rdrop :
    (Parsed.ofTokens (listArgument.rdrop 3 ++ [⟨.eof, ⟨7, 7⟩⟩])).document
        = (Parsed.ofTokens (listArgument ++ [⟨.eof, ⟨10, 10⟩⟩])).document
      ∧ (Parsed.ofTokens (listArgument.rdrop 3 ++ [⟨.eof, ⟨7, 7⟩⟩])).diagnostics.length = 3
      ∧ List.Forall₂ (ReportsMissing ⟨.eof, ⟨7, 7⟩⟩)
          [⟨.closing .bracket, ⟨7, 8⟩⟩, ⟨.closing .paren, ⟨8, 9⟩⟩, ⟨.closing .brace, ⟨9, 10⟩⟩]
          (Parsed.ofTokens (listArgument.rdrop 3 ++ [⟨.eof, ⟨7, 7⟩⟩])).diagnostics :=
  ofTokens_rdrop_append (by decide) rfl (by decide +kernel) (by decide) rfl

end GraphQuery
