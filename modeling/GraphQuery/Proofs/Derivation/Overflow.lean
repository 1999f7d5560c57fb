import GraphQuery.Proofs.Derivation.ReadBack

/-! # What skipping leaves behind

A subtree that nests too deep can be skipped as a whole if it is one token or one group. Of a
variable only the dollar sign is skipped, and of a type reference everything but the exclamation
mark after it: the rest is read as if it were the next part of the construct around it.

Such a rest never goes unnoticed, and this is what is shown here: reading a derivation either
records a **foreign** diagnostic, one that is not on nesting, or it records at least one diagnostic
for each subtree that nests too deep and another one for each that is not skipped as a whole. -/

namespace GraphQuery

/-! ## Foreign diagnostics -/

/-- **A foreign diagnostic** is not on nesting. -/
def Diagnostic.IsForeign (e : Diagnostic) : Prop := e.cause ≠ .recursionLimitExceeded

namespace Diagnostic

@[simp] theorem isForeign_tooManyItems (construct : String) (next : Token) :
    (tooManyItems construct next).IsForeign := by
  simp [IsForeign, tooManyItems]

@[simp] theorem isForeign_unclosed (construct : Construct) (eof : Token) :
    (unclosed construct eof).IsForeign := by
  simp [IsForeign, unclosed]

@[simp] theorem isForeign_mismatched (construct : Construct) (found : Token) :
    (mismatched construct found).IsForeign := by
  simp [IsForeign, mismatched]

@[simp] theorem isForeign_unexpected (expectation : Expectation) (found : Token) :
    (unexpected expectation found).IsForeign := by
  unfold IsForeign unexpected
  split <;> simp

end Diagnostic

namespace Reading

variable {α β : Type} {construct : Construct} {item : List Token → Reading (Item α)}
  {least more : Nat} {ts mid rest : List Token}

/-- Every diagnostic on a skipped group is foreign. -/
theorem isForeign_of_mem_skipGroup {budget depth : Nat} {e : Diagnostic}
    (he : e ∈ (skipGroup construct budget depth ts).diagnostics) : e.IsForeign := by
  induction budget generalizing depth ts with
  | zero =>
    rw [skipGroup] at he
    split at he
    · rw [List.mem_singleton.1 he]
      simp
    · rw [List.mem_singleton.1 he]
      simp
  | succ budget ih =>
    rw [skipGroup] at he
    split at he
    · rw [List.mem_singleton.1 he]
      simp
    · split at he
      · exact ih he
      · split at he
        · split at he
          · simp at he
          · exact ih he
        · exact ih he

/-- Every diagnostic on a skipped subtree is foreign. -/
theorem isForeign_of_mem_skipSubtree {e : Diagnostic} (he : e ∈ (skipSubtree ts).diagnostics) :
    e.IsForeign := by
  rw [skipSubtree] at he
  split at he
  · exact isForeign_of_mem_skipGroup he
  · simp at he

/-- **How much a reading reports**: it records a foreign diagnostic, or it ends before `rest` and
records at least so many diagnostics. -/
def ReportsAtLeast (least : Nat) (rest : List Token) (r : Reading α) : Prop :=
  (∃ e ∈ r.diagnostics, e.IsForeign) ∨ (r.rest = rest ∧ least ≤ r.diagnostics.length)

namespace ReportsAtLeast

/-- A foreign diagnostic is enough. -/
theorem of_isForeign {r : Reading α} {e : Diagnostic} (he : e ∈ r.diagnostics)
    (hforeign : e.IsForeign) : r.ReportsAtLeast least rest :=
  .inl ⟨e, he, hforeign⟩

/-- A reading with so many diagnostics reports so much. -/
theorem mk {value : α} {diagnostics : List Diagnostic} (h : least ≤ diagnostics.length) :
    (⟨value, diagnostics, rest⟩ : Reading α).ReportsAtLeast least rest :=
  .inr ⟨rfl, h⟩

/-- Changing the value changes no diagnostic. -/
theorem map {r : Reading α} (h : r.ReportsAtLeast least rest) (f : α → β) :
    (r.map f).ReportsAtLeast least rest := h

/-- What is reported adds up from one reading to the next. -/
theorem andThen {r : Reading α} {f : α → List Token → Reading β}
    (h : r.ReportsAtLeast least mid) (hf : (f r.value mid).ReportsAtLeast more rest) :
    (r.andThen f).ReportsAtLeast (least + more) rest := by
  rcases h with ⟨e, he, hforeign⟩ | ⟨hmid, hleast⟩
  · exact of_isForeign (List.mem_append_left _ he) hforeign
  · subst hmid
    rcases hf with ⟨e, he, hforeign⟩ | ⟨hrest, hmore⟩
    · exact of_isForeign (List.mem_append_right _ he) hforeign
    · refine .inr ⟨hrest, ?_⟩
      rw [andThen_diagnostics, List.length_append]
      omega

/-- After a foreign diagnostic it does not matter how reading goes on. -/
theorem andThen_of_isForeign {r : Reading α} {e : Diagnostic} (he : e ∈ r.diagnostics)
    (hforeign : e.IsForeign) (f : α → List Token → Reading β) :
    (r.andThen f).ReportsAtLeast least rest :=
  of_isForeign (List.mem_append_left _ he) hforeign

/-- Before a foreign diagnostic it does not matter how much is reported. -/
theorem andThen_isForeign {r : Reading α} {f : α → List Token → Reading β} {e : Diagnostic}
    (h : r.ReportsAtLeast least mid) (he : e ∈ (f r.value mid).diagnostics)
    (hforeign : e.IsForeign) : (r.andThen f).ReportsAtLeast more rest := by
  rcases h with ⟨e', he', hforeign'⟩ | ⟨hmid, -⟩
  · exact andThen_of_isForeign he' hforeign' f
  · subst hmid
    exact of_isForeign (List.mem_append_right _ he) hforeign

end ReportsAtLeast

/-! ## Rounds -/

/-- How much reading the items of a construct reports, however many rounds there are. -/
def RoundsReport (construct : Construct) (item : List Token → Reading (Item α)) (least : Nat)
    (rest ts : List Token) : Prop :=
  ∀ budget, (items construct item budget ts).ReportsAtLeast least rest

namespace RoundsReport

/-- To run out of rounds is to report something foreign. -/
theorem of_succ
    (h : ∀ budget, (items construct item (budget + 1) ts).ReportsAtLeast least rest) :
    RoundsReport construct item least rest ts := by
  intro budget
  cases budget with
  | zero => exact .of_isForeign List.mem_cons_self (by simp)
  | succ budget => exact h budget

/-- At the closing bracket there is nothing to report. -/
theorem closing (place : Span) (rest : List Token) :
    RoundsReport construct item 0 rest (⟨.closing construct.shape, place⟩ :: rest) := by
  refine of_succ fun budget => ?_
  rw [items_closing]
  exact .mk (Nat.zero_le _)

/-- Passing a comma changes nothing. -/
theorem comma (place : Span) (h : RoundsReport construct item least rest ts) :
    RoundsReport construct item least rest (⟨.comma, place⟩ :: ts) := by
  refine of_succ fun budget => ?_
  rw [items_comma]
  exact h budget

/-- What an item reports that is kept adds to what the following ones report. -/
theorem kept {value : α} (hends : construct.endsAt (nextKind ts) = false)
    (hcomma : nextKind ts ≠ .comma) (hvalue : (item ts).value = .kept value)
    (h : (item ts).ReportsAtLeast least mid) (hmore : RoundsReport construct item more rest mid) :
    RoundsReport construct item (least + more) rest ts := by
  refine of_succ fun budget => ?_
  rw [items_item hends hcomma]
  refine h.andThen ?_
  rw [hvalue]
  exact (hmore budget).map _

/-- An item with a foreign diagnostic is enough. -/
theorem of_isForeign {e : Diagnostic} (hends : construct.endsAt (nextKind ts) = false)
    (hcomma : nextKind ts ≠ .comma) (he : e ∈ (item ts).diagnostics) (hforeign : e.IsForeign) :
    RoundsReport construct item least rest ts := by
  refine of_succ fun budget => ?_
  rw [items_item hends hcomma]
  exact .andThen_of_isForeign he hforeign _

end RoundsReport

end Reading

namespace Derivation

open Reading

variable {α ι : Type} {levels : Nat} {rest ts : List Token}

/-! ## The least that is reported -/

instance (s : Subtree) : Decidable (SkipsWhole s) := inferInstanceAs (Decidable (_ ∧ _))

/-- **The least that is reported** on subtrees that nest too deep: one diagnostic for each, and
another one for each that is not skipped as a whole. -/
def leastReports : List Subtree → Nat
  | [] => 0
  | s :: ss => (if SkipsWhole s then 1 else 2) + leastReports ss

@[simp] theorem leastReports_nil : leastReports [] = 0 := rfl

@[simp] theorem leastReports_append (as bs : List Subtree) :
    leastReports (as ++ bs) = leastReports as + leastReports bs := by
  induction as with
  | nil => simp
  | cons s ss ih => rw [List.cons_append, leastReports, leastReports, ih, Nat.add_assoc]

/-- There is at least one diagnostic for each subtree. -/
theorem length_le_leastReports (ss : List Subtree) : ss.length ≤ leastReports ss := by
  induction ss with
  | nil => exact Nat.le_refl 0
  | cons s ss ih =>
    rw [List.length_cons, leastReports]
    split <;> omega

/-- If there is no more than that, every subtree is skipped as a whole. -/
theorem skipsWhole_of_leastReports_le {ss : List Subtree} (h : leastReports ss ≤ ss.length) :
    ∀ s ∈ ss, SkipsWhole s := by
  induction ss with
  | nil => simp
  | cons s ss ih =>
    have hle := length_le_leastReports ss
    rw [leastReports, List.length_cons] at h
    by_cases hs : SkipsWhole s
    · rw [if_pos hs] at h
      rintro t (_ | ⟨_, ht⟩)
      · exact hs
      · exact ih (by omega) t ht
    · rw [if_neg hs] at h
      omega

/-! ## Skipping -/

/-- What is skipped at once is reported, and reported twice if it is too long. -/
theorem tooDeep_report {front : List Token} (h : SkippedAtOnce front) (value : α)
    (rest : List Token) :
    (tooDeep value (front ++ rest)).ReportsAtLeast (if front.length ≤ maxItems then 1 else 2)
      rest := by
  by_cases hlen : front.length ≤ maxItems
  · rw [if_pos hlen, tooDeep, h.skipSubtree_append hlen]
    exact .mk (Nat.le_refl 1)
  · obtain ⟨e, he⟩ :=
      List.exists_mem_of_ne_nil _ (h.diagnostics_skipSubtree_ne_nil (Nat.lt_of_not_le hlen) rest)
    exact .of_isForeign (List.mem_cons_of_mem _ he) (isForeign_of_mem_skipSubtree he)

/-- A unit that nests too deep is reported. -/
theorem tooDeep_unit_report {s : Subtree} (h : s.isUnit) (value : α) (rest : List Token) :
    (tooDeep value (s.tokens ++ rest)).ReportsAtLeast (leastReports [s]) rest := by
  have hwhole : SkipsWhole s ↔ s.tokens.length ≤ maxItems := and_iff_right h
  simp only [leastReports, hwhole, Nat.add_zero]
  exact tooDeep_report (Subtree.skippedAtOnce_tokens h) value rest

/-! ## Groups -/

/-- The rounds of a group report what its items report. -/
theorem rounds_report {construct : Construct} {item : List Token → Reading (Item α)}
    {tokens : ι → List Token} {beyond : ι → List Subtree} (continues : Token.Kind → Prop)
    {rounds : List (Round ι)}
    (hhead : ∀ a ∈ itemsOf rounds, ∃ t ts, tokens a = t :: ts ∧ ¬ continues t.kind)
    (hitem : ∀ a ∈ itemsOf rounds, ∀ more ts, ¬ continues (nextKind ts) →
      RoundsReport construct item more rest ts →
      RoundsReport construct item (leastReports (beyond a) + more) rest (tokens a ++ ts))
    (hcomma : ¬ continues .comma) (hclose : ¬ continues (.closing construct.shape))
    (closing : Span) :
    RoundsReport construct item (leastReports ((itemsOf rounds).flatMap beyond)) rest
      (rounds.flatMap (Round.tokens tokens) ++ ⟨.closing construct.shape, closing⟩ :: rest) := by
  -- From the back: what is left to read reports so much, whatever rounds are left for it.
  induction rounds with
  | nil => exact .closing closing rest
  | cons round rounds ih =>
    cases round with
    | comma place => exact (ih hhead hitem).comma place
    | item a =>
      have hhead' : ∀ b ∈ itemsOf rounds, _ := fun b hb => hhead b (List.mem_cons_of_mem a hb)
      have hitem' : ∀ b ∈ itemsOf rounds, _ := fun b hb => hitem b (List.mem_cons_of_mem a hb)
      have hfollow : ¬ continues (nextKind (rounds.flatMap (Round.tokens tokens)
          ++ ⟨.closing construct.shape, closing⟩ :: rest)) :=
        not_continues_rounds hhead' hcomma hclose
      rw [itemsOf_item, List.flatMap_cons, leastReports_append, List.flatMap_cons, Round.tokens,
        List.append_assoc]
      exact hitem a List.mem_cons_self _ _ hfollow (ih hhead' hitem')

/-- **A group reports what its items report.** -/
theorem group_report {construct : Construct} {shape : Delimiter} (hshape : construct.shape = shape)
    {item : List Token → Reading (Item α)} {tokens : ι → List Token} {beyond : ι → List Subtree}
    (continues : Token.Kind → Prop) {g : Group shape ι}
    (hhead : ∀ a ∈ g.items, ∃ t ts, tokens a = t :: ts ∧ ¬ continues t.kind)
    (hitem : ∀ a ∈ g.items, ∀ more ts, ¬ continues (nextKind ts) →
      RoundsReport construct item more rest ts →
      RoundsReport construct item (leastReports (beyond a) + more) rest (tokens a ++ ts))
    (hcomma : ¬ continues .comma) (hclose : ¬ continues (.closing shape)) :
    (items construct item maxItems (g.tokens tokens ++ rest).tail).ReportsAtLeast
      (leastReports (g.items.flatMap beyond)) rest := by
  subst hshape
  have hrounds := rounds_report continues hhead hitem hcomma hclose g.closing
  rw [Group.tokens, List.cons_append, List.tail_cons, List.append_assoc]
  exact hrounds maxItems

/-! ## Literals -/

/-- **Literals report their subtrees.** Beyond the last level only units do: of a variable there,
the name is left to the construct around it. -/
def LiteralsReport (levels : Nat) : Prop :=
  ∀ (v : Value) (rest : List Token), (levels = 0 → (Subtree.value v).isUnit) →
    (literal levels (v.tokens ++ rest)).ReportsAtLeast (leastReports (v.overflow levels)) rest

/-- A literal that is no unit is a variable. -/
theorem exists_variableRef {v : Value} (h : ¬ (Subtree.value v).isUnit) :
    ∃ dollar place text, v = .variableRef dollar place text := by
  cases v with
  | variableRef dollar place text => exact ⟨dollar, place, text, rfl⟩
  | _ => exact absurd rfl h

/-- A variable that nests too deep is to be reported twice. -/
@[simp] theorem leastReports_variableRef (dollar place : Span) (text : String) :
    leastReports ((Value.variableRef dollar place text).overflow 0) = 2 := by
  simp [Value.overflow, leastReports, SkipsWhole, Subtree.isUnit]

/-- In a list, the name of a variable that nests too deep is skipped as another item. -/
theorem listItem_report (hliteral : LiteralsReport levels) (v : Value) {more : Nat}
    (hmore : RoundsReport .listValue (fun ts => (literal levels ts).map .kept) more rest ts) :
    RoundsReport .listValue (fun ts => (literal levels ts).map .kept)
      (leastReports (v.overflow levels) + more) rest (v.tokens ++ ts) := by
  obtain ⟨t, ts', htokens, hends, hcomma⟩ := exists_head_value v
  by_cases hunit : levels = 0 → (Subtree.value v).isUnit
  · exact .kept (by rwa [htokens]) (by rwa [htokens]) rfl ((hliteral v ts hunit).map _) hmore
  · obtain ⟨rfl, hvariable⟩ := Classical.not_imp.1 hunit
    obtain ⟨dollar, place, text, rfl⟩ := exists_variableRef hvariable
    -- The dollar sign and the name are skipped in two rounds, with a diagnostic each.
    rw [leastReports_variableRef, Value.tokens]
    have hname : RoundsReport .listValue (fun ts => (literal 0 ts).map .kept) (1 + more) rest
        (⟨.name text, place⟩ :: ts) :=
      .kept (by simp) (by simp) rfl (.mk (Nat.le_refl 1)) hmore
    have hdollar : RoundsReport .listValue (fun ts => (literal 0 ts).map .kept) (1 + (1 + more))
        rest (⟨.dollar, dollar⟩ :: ⟨.name text, place⟩ :: ts) :=
      .kept rfl (by simp) rfl (.mk (Nat.le_refl 1)) hname
    rw [← Nat.add_assoc] at hdollar
    exact hdollar

/-- After a label, the name of a variable that nests too deep is taken for another label, and its
colon is missed. -/
theorem labelled_report {construct : Construct} {item : List Token → Reading (Item α)}
    (make : String → Literal → α) (hliteral : LiteralsReport levels)
    (hitem : ∀ (l : Labelled Value) (ts : List Token), item (l.tokens Value.tokens ++ ts)
      = (literal levels (l.value.tokens ++ ts)).map fun value => .kept (make l.name value))
    (hstray : ∀ text place ts, nextKind ts ≠ .colon →
      ∃ e ∈ (item (⟨.name text, place⟩ :: ts)).diagnostics, e.IsForeign)
    (l : Labelled Value) {more : Nat} (hts : nextKind ts ≠ .colon)
    (hmore : RoundsReport construct item more rest ts) :
    RoundsReport construct item (leastReports (l.value.overflow levels) + more) rest
      (l.tokens Value.tokens ++ ts) := by
  have hends : construct.endsAt (nextKind (l.tokens Value.tokens ++ ts)) = false :=
    construct.endsAt_name l.name
  have hcomma : nextKind (l.tokens Value.tokens ++ ts) ≠ .comma := by simp [Labelled.tokens]
  have hvalue : (item (l.tokens Value.tokens ++ ts)).value
      = .kept (make l.name (literal levels (l.value.tokens ++ ts)).value) := by
    rw [hitem]
    rfl
  by_cases hunit : levels = 0 → (Subtree.value l.value).isUnit
  · refine .kept hends hcomma hvalue ?_ hmore
    rw [hitem]
    exact (hliteral l.value ts hunit).map _
  · obtain ⟨rfl, hvariable⟩ := Classical.not_imp.1 hunit
    obtain ⟨dollar, place, text, hl⟩ := exists_variableRef hvariable
    -- The dollar sign is skipped in the place of the value, and the name is read as a label.
    obtain ⟨e, he, hforeign⟩ := hstray text place ts hts
    have hname : RoundsReport construct item (1 + more) rest (⟨.name text, place⟩ :: ts) :=
      .of_isForeign (by simp) (by simp) he hforeign
    have hdollar : (item (l.tokens Value.tokens ++ ts)).ReportsAtLeast 1
        (⟨.name text, place⟩ :: ts) := by
      rw [hitem, hl, Value.tokens]
      exact .mk (Nat.le_refl 1)
    have hboth := RoundsReport.kept hends hcomma hvalue hdollar hname
    rw [hl, leastReports_variableRef]
    rwa [← Nat.add_assoc] at hboth

/-- A field of an object that lacks its colon spoils the object. -/
theorem objectField_stray (reader : List Token → Reading Literal) {text : String} {place : Span}
    (h : nextKind ts ≠ .colon) :
    ∃ e ∈ (objectField reader (⟨.name text, place⟩ :: ts)).diagnostics, e.IsForeign := by
  rw [objectField_missedColon reader h]
  exact ⟨_, List.mem_cons_self, by simp⟩

/-- An argument that lacks its colon is reported. -/
theorem argument_stray (reader : List Token → Reading Literal) {text : String} {place : Span}
    (h : nextKind ts ≠ .colon) :
    ∃ e ∈ (argument reader (⟨.name text, place⟩ :: ts)).diagnostics, e.IsForeign := by
  rw [argument_missedColon reader h]
  exact ⟨_, List.mem_cons_self, by simp⟩

/-- **Literals report their subtrees** at every level. -/
theorem literal_report (levels : Nat) : LiteralsReport levels := by
  induction levels with
  | zero =>
    intro v rest hunit
    exact tooDeep_unit_report (hunit rfl) _ rest
  | succ levels ih =>
    intro v rest _
    -- Lists and objects report what their items do, and all else is a unit or one token.
    cases v with
    | list g =>
      rw [Value.tokens_list, literal, nextKind_group, Value.overflow]
      refine .map ?_ _
      refine group_report rfl (fun _ => False) (fun v _ => ?_)
        (fun v _ more ts _ hmore => listItem_report ih v hmore) id id
      obtain ⟨t, ts, htokens, -, -⟩ := exists_head_value v
      exact ⟨t, ts, htokens, id⟩
    | object g =>
      rw [Value.tokens_object, literal, nextKind_group, Value.overflow]
      refine .map ?_ _
      exact group_report rfl (· = .colon) (fun l _ => ⟨_, _, rfl, by simp⟩)
        (fun l _ more ts hts hmore => labelled_report Prod.mk ih (objectField_tokens _)
          (fun _ _ _ h => objectField_stray _ h) l hts hmore)
        (by simp) (by simp)
    | variableRef dollar place text =>
      rw [Value.tokens, literal]
      exact .mk (Nat.zero_le _)
    | _ =>
      rw [Value.tokens, literal]
      exact .mk (Nat.zero_le _)

/-! ## Selections -/

/-- The arguments of a field report the subtrees of their values. -/
theorem arguments_report (levels : Nat) {f : Field}
    (hrest : f.arguments = none → nextKind rest ≠ .opening .paren) :
    (arguments (literal levels) (f.arguments.elim []
        (Group.tokens (Labelled.tokens Value.tokens)) ++ rest)).ReportsAtLeast
      (leastReports (f.argumentItems.flatMap fun l => l.value.overflow levels)) rest := by
  obtain ⟨place, name, _ | g, selection⟩ := f
  · show (arguments (literal levels) rest).ReportsAtLeast 0 rest
    rw [arguments, if_neg (hrest rfl)]
    exact .mk (Nat.zero_le _)
  · show (arguments (literal levels)
        (g.tokens (Labelled.tokens Value.tokens) ++ rest)).ReportsAtLeast
      (leastReports (g.items.flatMap fun l => l.value.overflow levels)) rest
    rw [arguments, nextKind_group, if_pos rfl]
    refine .map ?_ _
    exact group_report rfl (· = .colon) (fun l _ => ⟨_, _, rfl, by simp⟩)
      (fun l _ more ts hts hmore => labelled_report Argument.mk (literal_report levels)
        (argument_tokens _) (fun _ _ _ h => argument_stray _ h) l hts hmore)
      (by simp) (by simp)

/-- **Selection sets report their subtrees.** -/
theorem selectionSet_report (levels : Nat) (s : Selection) (rest : List Token) :
    (selectionSet levels (s.tokens Field.tokens ++ rest)).ReportsAtLeast
      (leastReports (s.overflow levels)) rest := by
  -- A selection set is a unit, so that nothing has to be assumed of the innermost ones.
  induction levels generalizing s rest with
  | zero => exact tooDeep_unit_report (s := .selection s) rfl _ rest
  | succ levels ih =>
    rw [selectionSet, Selection.overflow]
    refine .map ?_ _
    refine group_report rfl ContinuesField
      (fun f _ => ⟨_, _, Field.tokens_eq f, by simp [ContinuesField]⟩) ?_
      (by simp [ContinuesField]) (by simp [ContinuesField])
    intro f _ more ts hts hmore
    have hnested : (nested (selectionSet levels)
        (f.selection.elim [] (Group.tokens Field.tokens) ++ ts)).ReportsAtLeast
          (leastReports (f.selection.elim [] (Selection.overflow levels))) ts := by
      cases f.selection with
      | none =>
        show (nested (selectionSet levels) ts).ReportsAtLeast 0 ts
        rw [nested, if_neg (fun h => hts (.inr h))]
        exact .mk (Nat.zero_le _)
      | some inner =>
        show (nested (selectionSet levels) (inner.tokens Field.tokens ++ ts)).ReportsAtLeast
          (leastReports (Selection.overflow levels inner)) ts
        rw [nested, nextKind_group, if_pos rfl]
        exact (ih inner ts).map _
    have hname : nextKind (f.tokens ++ ts) = .name f.name := by
      rw [Field.tokens_eq]
      rfl
    have hfield : (field (literal levels) (selectionSet levels) (f.tokens ++ ts)).ReportsAtLeast
        (leastReports (f.argumentItems.flatMap fun l => l.value.overflow levels)
          + leastReports (f.selection.elim [] (Selection.overflow levels))) ts := by
      rw [field_tokens]
      exact (arguments_report levels fun _ => nextKind_selection_ne_paren hts).andThen
        (hnested.map _)
    obtain ⟨value, hvalue⟩ : ∃ value,
        (field (literal levels) (selectionSet levels) (f.tokens ++ ts)).value = .kept value := by
      rw [field_tokens]
      exact ⟨_, rfl⟩
    rw [leastReports_append]
    exact .kept (by simp [hname]) (by simp [hname]) hvalue hfield hmore

/-! ## Type references -/

/-- **Type references report their subtrees.** -/
theorem typeReference_report {levels : Nat} {t : TypeTree}
    (hunit : levels = 0 → (Subtree.type t).isUnit) {rest : List Token}
    (hrest : nextKind rest ≠ .bang) :
    (typeReference levels (t.tokens ++ rest)).ReportsAtLeast (leastReports (t.overflow levels))
      rest := by
  induction levels generalizing t rest with
  | zero => exact tooDeep_unit_report (hunit rfl) _ rest
  | succ levels ih =>
    cases t with
    | named place name mark =>
      rw [typeReference_tokens (by simp [TypeTree.overflow]) hrest]
      exact .mk (Nat.zero_le _)
    | list opening element closing mark =>
      rw [typeReference_list, TypeTree.overflow]
      by_cases hunit : levels = 0 → (Subtree.type element).isUnit
      · have helement : (typeReference levels (element.tokens ++ ⟨.closing .bracket, closing⟩ ::
            (TypeTree.markTokens mark ++ rest))).ReportsAtLeast
              (leastReports (element.overflow levels))
              (⟨.closing .bracket, closing⟩ :: (TypeTree.markTokens mark ++ rest)) :=
          ih hunit (by simp)
        have hclose : (close .listType (⟨.closing .bracket, closing⟩ ::
            (TypeTree.markTokens mark ++ rest))).ReportsAtLeast 0
              (TypeTree.markTokens mark ++ rest) := .mk (Nat.zero_le _)
        have hmark : (nullability (TypeTree.markTokens mark ++ rest)).ReportsAtLeast 0 rest := by
          rw [nullability_tokens mark hrest]
          exact .mk (Nat.zero_le _)
        rw [← Nat.add_zero (leastReports _)]
        refine helement.andThen ?_
        rw [← Nat.add_zero 0]
        refine hclose.andThen ?_
        exact hmark.map _
      · -- The mark of the element is left where the closing bracket is expected.
        obtain ⟨rfl, hmarked⟩ := Classical.not_imp.1 hunit
        obtain ⟨front, place, honce, htokens⟩ :=
          TypeTree.tokens_of_not_isUnit (by simpa using hmarked)
        rw [htokens, List.append_assoc, typeReference]
        exact (tooDeep_report honce _ _).andThen_isForeign List.mem_cons_self (by simp)

/-! ## Definitions -/

/-- Declared variables report the subtrees of their types. -/
theorem variableDefinition_report {v : Variable} {more : Nat}
    (hts : ¬ ContinuesVariable (nextKind ts))
    (hmore : RoundsReport .variableDefinitions variableDefinition more rest ts) :
    RoundsReport .variableDefinitions variableDefinition (leastReports v.overflow + more) rest
      (v.tokens ++ ts) := by
  obtain ⟨dollar, place, name, _ | ⟨colon, type⟩⟩ := v
  · have hread := variableDefinition_tokens (v := ⟨dollar, place, name, none⟩)
      (by simp [Variable.overflow]) hts
    refine .kept rfl (by simp [Variable.tokens]) (congrArg Reading.value hread) ?_ hmore
    rw [hread]
    exact .mk (Nat.zero_le _)
  · have hread := variableDefinition_type dollar place name colon type ts
    refine .kept rfl (by simp [Variable.tokens]) (congrArg Reading.value hread) ?_ hmore
    rw [hread]
    exact (typeReference_report (by simp [maxNesting]) fun h => hts (.inr h)).map _

/-- The variables of an operation report the subtrees of their types. -/
theorem variableDefinitions_report (declared : Option (Group .paren Variable))
    (hrest : nextKind rest ≠ .opening .paren) :
    (variableDefinitions (declared.elim [] (Group.tokens Variable.tokens) ++ rest)).ReportsAtLeast
      (leastReports ((declared.elim [] Group.items).flatMap Variable.overflow)) rest := by
  cases declared with
  | none =>
    show (variableDefinitions rest).ReportsAtLeast 0 rest
    rw [variableDefinitions, if_neg hrest]
    exact .mk (Nat.zero_le _)
  | some g =>
    show (variableDefinitions (g.tokens Variable.tokens ++ rest)).ReportsAtLeast
      (leastReports (g.items.flatMap Variable.overflow)) rest
    rw [variableDefinitions, nextKind_group, if_pos rfl]
    refine .map ?_ _
    exact group_report rfl ContinuesVariable
      (fun v _ => ⟨_, _, rfl, by simp [ContinuesVariable]⟩)
      (fun v _ more ts hts hmore => variableDefinition_report hts hmore)
      (by simp [ContinuesVariable]) (by simp [ContinuesVariable])

/-- Fields of a type report the subtrees of their types. -/
theorem fieldDefinition_report {f : FieldType} (htakes : ∀ e ∈ f.takes, e.tokens.length ≤ maxItems)
    {more : Nat} (hts : nextKind ts ≠ .bang)
    (hmore : RoundsReport .typeDefinition fieldDefinition more rest ts) :
    RoundsReport .typeDefinition fieldDefinition
      (leastReports (f.type.overflow maxNesting) + more) rest (f.tokens ++ ts) := by
  have hread := fieldDefinition_type htakes ts
  refine .kept rfl (by simp [FieldType.tokens]) (congrArg Reading.value hread) ?_ hmore
  rw [hread]
  exact (typeReference_report (by simp [maxNesting]) hts).map _

/-- **Definitions report their subtrees.** -/
theorem definition_report {d : Definition} (hfits : d.Fits) (rest : List Token) :
    (definition (d.tokens ++ rest)).ReportsAtLeast (leastReports d.overflow) rest := by
  cases d with
  | anonymous selection =>
    rw [definition_anonymous]
    exact (selectionSet_report maxNesting selection rest).map _
  | operation kind keyword name declared selection =>
    rw [definition_operation, Definition.overflow, leastReports_append]
    refine (variableDefinitions_report declared (by simp)).andThen (.map ?_ _)
    rw [rootSelection, nextKind_group, if_pos rfl]
    exact selectionSet_report maxNesting selection rest
  | typeDefinition keyword place name fields =>
    obtain ⟨-, htakes⟩ := hfits
    rw [definition_typeDefinition, Definition.overflow]
    refine .map ?_ _
    exact group_report rfl (· = .bang) (fun f _ => ⟨_, _, rfl, by simp⟩)
      (fun f hf more ts hts hmore => fieldDefinition_report (htakes f hf) hts hmore)
      (by simp) (by simp)

/-! ## Documents -/

/-- Definitions in a row report their subtrees. -/
theorem definitions_report {ds : List Definition} (hfits : ∀ d ∈ ds, d.Fits) (budget : Nat)
    (hrest : nextKind rest = .eof) :
    (definitions budget (ds.flatMap Definition.tokens ++ rest)).ReportsAtLeast
      (leastReports (ds.flatMap Definition.overflow)) rest := by
  induction ds generalizing budget with
  | nil =>
    cases budget <;> simp [definitions, hrest, ReportsAtLeast]
  | cons d ds ih =>
    rw [List.flatMap_cons, List.flatMap_cons, List.append_assoc, leastReports_append]
    cases budget with
    | zero =>
      rw [definitions, if_neg (nextKind_definition_ne_eof d _)]
      exact .of_isForeign List.mem_cons_self (by simp)
    | succ budget =>
      rw [definitions, if_neg (nextKind_definition_ne_eof d _)]
      refine (definition_report (hfits d List.mem_cons_self) _).andThen ?_
      exact (ih (fun e he => hfits e (List.mem_cons_of_mem d he)) budget).map _

/-- **Documents report their subtrees.** -/
theorem document_report {d : Document} (hfits : d.Fits) (hrest : nextKind rest = .eof) :
    (document (d.tokens ++ rest)).ReportsAtLeast (leastReports d.overflow) rest :=
  (definitions_report hfits.2 maxItems hrest).map _

/-- A document is read with one diagnostic on each subtree that nests too deep **only if** every
such subtree is skipped as a whole. -/
theorem skipsWhole_of_diagnostics_document {d : Document} (hfits : d.Fits)
    (hrest : nextKind rest = .eof)
    (h : (document (d.tokens ++ rest)).diagnostics = d.overflow.map Subtree.fault) :
    ∀ s ∈ d.overflow, SkipsWhole s := by
  -- None of these diagnostics is foreign, so that their number must be large enough.
  rcases document_report hfits hrest with ⟨e, he, hforeign⟩ | ⟨-, hleast⟩
  · rw [h, List.mem_map] at he
    obtain ⟨s, -, rfl⟩ := he
    exact absurd rfl hforeign
  · rw [h, List.length_map] at hleast
    exact skipsWhole_of_leastReports_le hleast

end Derivation

end GraphQuery
