import GraphQuery.Proofs.Derivation

/-! # The tokens of derivations

What a tree derives has every property of tokens that **composes**: that goes over from stretches
of tokens to what they make up when they are put one after the other or into brackets. To be
balanced in one shape of brackets is such a property. -/

namespace GraphQuery

/-! ## Properties that compose -/

/-- Whether a token is neither a bracket nor illegal nor the end of input. -/
def Token.Kind.isPlain : Token.Kind → Bool
  | opening _ | closing _ | illegal _ | eof => false
  | _ => true

/-- **A property of tokens that composes.** -/
structure Composes (P : List Token → Prop) : Prop where
  /-- No tokens have it. -/
  nil : P []
  /-- A plain token has it by itself. -/
  token {t : Token} (plain : t.kind.isPlain = true) : P [t]
  /-- Stretches that have it may follow each other. -/
  append {as bs : List Token} (first : P as) (second : P bs) : P (as ++ bs)
  /-- What has it may be put into brackets of whatever shape. -/
  group {inside : List Token} (h : P inside) (shape : Delimiter) (opening closing : Span) :
    P (⟨.opening shape, opening⟩ :: (inside ++ [⟨.closing shape, closing⟩]))

/-- Balance composes, in each shape of brackets. -/
theorem Balanced.composes {shape : Delimiter} : Composes (Balanced shape) where
  nil := .nil
  token {t} plain := by
    refine .singleton (fun heof => ?_) ?_
    · simp [heof, Token.Kind.isPlain] at plain
    · cases hkind : t.kind <;> simp_all [Token.Kind.isPlain, Token.Kind.weight]
  append := .append
  group := .group

namespace Composes

variable {P : List Token → Prop} {α : Type}

theorem cons (hP : Composes P) {t : Token} {ts : List Token} (plain : t.kind.isPlain = true)
    (hts : P ts) : P (t :: ts) :=
  hP.append (hP.token plain) hts

theorem flatMap (hP : Composes P) {xs : List α} {f : α → List Token} (h : ∀ x ∈ xs, P (f x)) :
    P (xs.flatMap f) := by
  induction xs with
  | nil => exact hP.nil
  | cons x xs ih =>
    rw [List.flatMap_cons]
    exact hP.append (h x List.mem_cons_self) (ih fun y hy => h y (List.mem_cons_of_mem x hy))

/-- What may be missing has the property if it has when it is there. -/
theorem elim (hP : Composes P) {o : Option α} {ofItem : α → List Token}
    (h : ∀ a ∈ o, P (ofItem a)) : P (o.elim [] ofItem) := by
  cases o with
  | none => exact hP.nil
  | some a => exact h a rfl

end Composes

namespace Derivation

variable {P : List Token → Prop} {shape : Delimiter} {α : Type}

/-- The tokens of a group have the property if those of its items have it. -/
theorem Group.tokens_of_composes (hP : Composes P) {g : Group shape α} {ofItem : α → List Token}
    (h : ∀ a ∈ g.items, P (ofItem a)) : P (g.tokens ofItem) := by
  refine hP.group (hP.flatMap fun round hround => ?_) shape g.opening g.closing
  cases round with
  | comma place => exact hP.token rfl
  | item a => exact h a (mem_itemsOf.2 hround)

/-- A label does not disturb the property. -/
theorem Labelled.tokens_of_composes (hP : Composes P) {l : Labelled α} {ofValue : α → List Token}
    (h : P (ofValue l.value)) : P (l.tokens ofValue) :=
  hP.cons rfl (hP.cons rfl h)

/-- The tokens of a literal have every property that composes. -/
theorem Value.tokens_of_composes (hP : Composes P) : (v : Value) → P v.tokens
  | int _ _ | string _ _ | word _ _ => by
    rw [tokens]
    exact hP.token rfl
  | variableRef _ _ _ => by
    rw [tokens]
    exact hP.cons rfl (hP.token rfl)
  | list g => by
    rw [tokens_list]
    exact Group.tokens_of_composes hP fun v hv => v.tokens_of_composes hP
  | object g => by
    rw [tokens_object]
    exact Group.tokens_of_composes hP fun l hl =>
      Labelled.tokens_of_composes hP (l.value.tokens_of_composes hP)
decreasing_by
  · exact sizeOf_lt_of_mem_list (mem_itemsOf.1 ‹_›)
  · exact sizeOf_lt_of_mem_object (mem_itemsOf.1 ‹_›)

/-- The tokens of a list of arguments have it. -/
theorem arguments_of_composes (hP : Composes P) (g : Group .paren (Labelled Value)) :
    P (g.tokens (Labelled.tokens Value.tokens)) :=
  Group.tokens_of_composes hP fun l _ =>
    Labelled.tokens_of_composes hP (l.value.tokens_of_composes hP)

/-- The tokens of a selected field have it. -/
theorem Field.tokens_of_composes (hP : Composes P) : (f : Field) → P f.tokens
  | ⟨_, _, arguments, none⟩ => by
    rw [tokens_eq]
    exact hP.cons rfl (hP.append (hP.elim fun g _ => arguments_of_composes hP g) hP.nil)
  | ⟨_, _, arguments, some s⟩ => by
    rw [tokens_eq]
    exact hP.cons rfl (hP.append (hP.elim fun g _ => arguments_of_composes hP g)
      (Group.tokens_of_composes hP fun f hf => f.tokens_of_composes hP))
decreasing_by
  exact sizeOf_lt_of_mem (mem_itemsOf.1 ‹_›)

/-- The tokens of a selection set have it. -/
theorem Selection.tokens_of_composes (hP : Composes P) (s : Selection) :
    P (s.tokens Field.tokens) :=
  Group.tokens_of_composes hP fun f _ => f.tokens_of_composes hP

/-- The tokens of a type reference have it. -/
theorem TypeTree.tokens_of_composes (hP : Composes P) (t : TypeTree) : P t.tokens := by
  have hmark : ∀ mark, P (markTokens mark) := fun mark => hP.elim fun place _ => hP.token rfl
  induction t with
  | named place name mark => exact hP.cons rfl (hmark mark)
  | list opening element closing mark ih =>
    have hgroup := hP.append (hP.group ih .bracket opening closing) (hmark mark)
    rw [tokens]
    simpa using hgroup

/-- The tokens of a declared variable have it. -/
theorem Variable.tokens_of_composes (hP : Composes P) (v : Variable) : P v.tokens :=
  hP.cons rfl (hP.cons rfl
    (hP.elim fun type _ => hP.cons rfl (type.2.tokens_of_composes hP)))

/-! ## What is passed unread -/

/-- What the fields of a type take, which is passed without being read. -/
def Definition.enclosed : Definition → List (Enclosed .paren)
  | operation _ _ _ _ _ | anonymous _ => []
  | typeDefinition _ _ _ fields => fields.items.filterMap FieldType.takes

/-- **What a document encloses** that is passed without being read. -/
def Document.enclosed (d : Document) : List (Enclosed .paren) :=
  d.definitions.flatMap Definition.enclosed

/-- The tokens of a definition have the property if what is passed unread in it has. -/
theorem Definition.tokens_of_composes (hP : Composes P) {d : Definition}
    (h : ∀ e ∈ d.enclosed, P e.inside) : P d.tokens := by
  cases d with
  | anonymous selection => exact selection.tokens_of_composes hP
  | operation kind keyword name declared selection =>
    have hdeclared : P (declared.elim [] (Group.tokens Variable.tokens)) :=
      hP.elim fun g _ => Group.tokens_of_composes hP fun v _ => v.tokens_of_composes hP
    have hrest := hP.append hdeclared (selection.tokens_of_composes hP)
    exact hP.cons rfl (hP.append (hP.elim fun n _ => hP.token rfl) hrest)
  | typeDefinition keyword place name fields =>
    have hfield : ∀ f ∈ fields.items, P f.tokens := fun f hf => by
      have htakes : P (f.takes.elim [] Enclosed.tokens) := hP.elim fun e he =>
        hP.group (h e (List.mem_filterMap.2 ⟨f, hf, he⟩)) .paren e.opening e.closing
      exact hP.cons rfl (hP.append htakes (hP.cons rfl (f.type.tokens_of_composes hP)))
    exact hP.cons rfl (hP.cons rfl (Group.tokens_of_composes hP hfield))

/-- **The tokens of a document** have every property that composes, if what is passed unread in it
has. -/
theorem Document.tokens_of_composes (hP : Composes P) {d : Document}
    (h : ∀ e ∈ d.enclosed, P e.inside) : P d.tokens :=
  hP.flatMap fun definition hmem => definition.tokens_of_composes hP fun e he =>
    h e (List.mem_flatMap.2 ⟨definition, hmem, he⟩)

/-- No document contains an end of input. -/
theorem Document.kind_ne_eof {d : Document} {t : Token} (ht : t ∈ d.tokens) : t.kind ≠ .eof := by
  -- Balance in round brackets is enough: those are the brackets of what is passed unread.
  have hbalanced : Balanced .paren d.tokens :=
    d.tokens_of_composes Balanced.composes fun e _ => e.balanced
  exact hbalanced.noEof t ht

/-! ## Units -/

/-- A group is skipped at once. -/
theorem Group.skippedAtOnce {g : Group shape α} {ofItem : α → List Token}
    (h : ∀ a, Balanced shape (ofItem a)) : Reading.SkippedAtOnce (g.tokens ofItem) := by
  refine .group g.opening g.closing (Balanced.composes.flatMap fun round _ => ?_)
  cases round with
  | comma place => exact Balanced.composes.token rfl
  | item a => exact h a

/-- A unit is skipped at once. -/
theorem Subtree.skippedAtOnce_tokens {s : Subtree} (h : s.isUnit) :
    Reading.SkippedAtOnce s.tokens := by
  cases s with
  | selection s => exact Group.skippedAtOnce (Field.tokens_of_composes Balanced.composes)
  | value v =>
    cases v with
    | variableRef dollar place text => simp [isUnit] at h
    | list g =>
      rw [tokens, Value.tokens_list]
      exact Group.skippedAtOnce (Value.tokens_of_composes Balanced.composes)
    | object g =>
      rw [tokens, Value.tokens_object]
      exact Group.skippedAtOnce fun l =>
        Labelled.tokens_of_composes Balanced.composes
          (l.value.tokens_of_composes Balanced.composes)
    | _ =>
      rw [tokens, Value.tokens]
      exact .token (by simp) (by simp)
  | type t =>
    cases t with
    | named place name mark =>
      rw [isUnit, Option.isNone_iff_eq_none] at h
      subst h
      exact .token (by simp) (by simp)
    | list opening element closing mark =>
      rw [isUnit, Option.isNone_iff_eq_none] at h
      subst h
      exact .group opening closing (element.tokens_of_composes Balanced.composes)

/-- A type reference that is not a unit is one with an exclamation mark after it. -/
theorem TypeTree.tokens_of_not_isUnit {t : TypeTree} (h : (Subtree.type t).isUnit = false) :
    ∃ front place, Reading.SkippedAtOnce front ∧ t.tokens = front ++ [⟨.bang, place⟩] := by
  cases t with
  | named place name mark =>
    obtain ⟨bang, rfl⟩ := Option.isSome_iff_exists.1 (by simpa [Subtree.isUnit] using h)
    exact ⟨[_], bang, .token (by simp) (by simp), rfl⟩
  | list opening element closing mark =>
    obtain ⟨bang, rfl⟩ := Option.isSome_iff_exists.1 (by simpa [Subtree.isUnit] using h)
    have hinside : Balanced .bracket element.tokens :=
      element.tokens_of_composes Balanced.composes
    have hgroup := Reading.SkippedAtOnce.group opening closing hinside
    refine ⟨_, bang, hgroup, ?_⟩
    simp [tokens, markTokens]

end Derivation

end GraphQuery
