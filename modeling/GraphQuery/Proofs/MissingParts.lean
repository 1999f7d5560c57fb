import GraphQuery.Proofs.Calls
import GraphQuery.Proofs.Termination

/-! # Missing parts

Where a literal or a type is expected, a closing bracket or the end of input may be next: the part
is **missing**. It is reported once, and a closing bracket is left to the construct around it, as
long as parts may nest at all. Beyond the last level it is not: there the part is skipped before
anything is known of it, and the bracket is what is skipped. The construct around the part then
does not find the bracket that closes it.

So a missing part leaves its bracket exactly if there is a level left
(`Reading.missingPart_left_iff`), and parses do get to missing parts beyond the last level. -/

namespace GraphQuery

namespace Reading

variable {α : Type} {levels : Nat} {ts : List Token}

/-- Whether a part that is expected is **missing**: a closing bracket is next, or the end of
input. -/
def IsMissing (ts : List Token) : Prop := (nextKind ts).isClosing ∨ nextKind ts = .eof

theorem isMissing_iff :
    IsMissing ts ↔ (∃ shape, nextKind ts = .closing shape) ∨ nextKind ts = .eof := by
  unfold IsMissing
  cases nextKind ts <;> simp [Token.Kind.isClosing]

/-- **How a missing part is read** that was expected where so many levels are left. -/
structure ReadAsMissing (levels : Nat) (expectation : Expectation) (ts : List Token)
    (r : Reading α) : Prop where
  /-- Exactly one diagnostic is recorded, at the token that is next. -/
  reported : r.diagnostics = [if levels = 0 then .nestedTooDeep (nextToken ts)
    else .unexpected expectation (nextToken ts)]
  /-- That token is left in place exactly if there is a level left, or if the input ends there. -/
  left_iff : r.rest = ts ↔ 0 < levels ∨ nextKind ts = .eof
  /-- Beyond the last level it is passed. -/
  passed : levels = 0 → r.rest = dropToken ts
  /-- The construct around the part finds its closing bracket exactly if there is a level left. -/
  closes_iff (construct : Construct) (hclosing : nextKind ts = .closing construct.shape) :
    close construct r.rest = ⟨(), [], ts.tail⟩ ↔ 0 < levels

/-- What is not the end of input is not the rest of itself. -/
theorem tail_ne_self (h : nextKind ts ≠ .eof) : ts.tail ≠ ts := by
  intro htail
  have hlt := length_tail_lt h
  rw [htail] at hlt
  exact Nat.lt_irrefl _ hlt

/-- A construct is closed by its bracket. -/
theorem close_closing {construct : Construct} (h : nextKind ts = .closing construct.shape) :
    close construct ts = ⟨(), [], ts.tail⟩ := by
  rw [close, h]
  exact if_pos rfl

/-- A construct that is closed has passed a token. -/
theorem close_ne_self (construct : Construct) (ts : List Token) :
    close construct ts ≠ ⟨(), [], ts⟩ := by
  intro h
  rw [close] at h
  split at h
  · simp at h
  · next shape hshape =>
    split at h
    · exact tail_ne_self (by simp [hshape]) (congrArg Reading.rest h)
    · simp at h
  · simp [unexpected] at h

/-- Within the last level, what is missing is left in place. -/
theorem readAsMissing_unexpected (expectation : Expectation) (value : α) (hlevels : 0 < levels) :
    ReadAsMissing levels expectation ts (unexpected expectation value ts) where
  reported := by
    rw [if_neg hlevels.ne']
    rfl
  left_iff := iff_of_true rfl (.inl hlevels)
  passed hzero := absurd hzero hlevels.ne'
  closes_iff _ hclosing := iff_of_true (close_closing hclosing) hlevels

/-- What is missing is skipped as one token. -/
theorem tooDeep_of_isMissing (value : α) (h : IsMissing ts) :
    tooDeep value ts = ⟨value, [.nestedTooDeep (nextToken ts)], dropToken ts⟩ := by
  rw [tooDeep, skipSubtree]
  rcases isMissing_iff.1 h with ⟨shape, hnext⟩ | hnext <;> rw [hnext]

/-- Beyond the last level, what is missing is skipped. -/
theorem readAsMissing_tooDeep (expectation : Expectation) (value : α) (h : IsMissing ts) :
    ReadAsMissing 0 expectation ts (tooDeep value ts) := by
  rw [tooDeep_of_isMissing value h]
  refine ⟨rfl, ?_, fun _ => rfl, fun construct hclosing => ?_⟩
  · by_cases heof : nextKind ts = .eof
    · exact iff_of_true (if_pos heof) (.inr heof)
    · rw [dropToken_eq_tail heof]
      exact iff_of_false (tail_ne_self heof) (by simp [heof])
  · rw [dropToken_eq_tail (by simp [hclosing])]
    exact iff_of_false (close_ne_self construct _) (Nat.lt_irrefl 0)

/-- A missing literal. -/
theorem readAsMissing_literal (levels : Nat) (h : IsMissing ts) :
    ReadAsMissing levels .value ts (literal levels ts)
      ∧ ∃ remark, (literal levels ts).value = .illegal remark := by
  cases levels with
  | zero => exact ⟨readAsMissing_tooDeep _ _ h, _, rfl⟩
  | succ levels =>
    have hread : literal (levels + 1) ts = unexpected .value (.illegal "expected value") ts := by
      rw [literal]
      rcases isMissing_iff.1 h with ⟨shape, hnext⟩ | hnext <;> rw [hnext]
    rw [hread]
    exact ⟨readAsMissing_unexpected _ _ (Nat.succ_pos _), _, rfl⟩

/-- A missing type. -/
theorem readAsMissing_typeReference (levels : Nat) (h : IsMissing ts) :
    ReadAsMissing levels .type ts (typeReference levels ts)
      ∧ (typeReference levels ts).value = none := by
  cases levels with
  | zero => exact ⟨readAsMissing_tooDeep _ _ h, rfl⟩
  | succ levels =>
    have hread : typeReference (levels + 1) ts = unexpected .type none ts := by
      rw [typeReference]
      rcases isMissing_iff.1 h with ⟨shape, hnext⟩ | hnext <;> rw [hnext]
    rw [hread]
    exact ⟨readAsMissing_unexpected _ _ (Nat.succ_pos _), rfl⟩

/-- A literal that is not missing passes a token at least. -/
theorem literal_suffix_tail_of_not_isMissing (levels : Nat) (h : ¬ IsMissing ts) :
    (literal levels ts).rest <:+ ts.tail := by
  obtain ⟨hclosing, heof⟩ := not_or.1 (mt isMissing_iff.2 h)
  exact literal_suffix_tail levels (show 0 < maxItems by decide) heof fun shape hshape =>
    hclosing ⟨shape, hshape⟩

/-- The first item of a construct. -/
theorem ItemAt.first {construct : Construct} {item : List Token → Reading (Item α)}
    (kind : Token.Kind) (hnext : nextKind ts = kind) (hends : construct.endsAt kind = false)
    (hcomma : kind ≠ .comma) : ItemAt construct item maxItems ts ts :=
  .here (by rwa [hnext]) (by rwa [hnext])

end Reading

open Reading

/-! ## Beyond the last level -/

section Beyond

variable {ts : List Token}

/-- A token at no place in particular. -/
def Token.ofKind (kind : Token.Kind) : Token := ⟨kind, ⟨0, 0⟩⟩

/-- Fields that are opened one in the other, and an argument without its value in the last. -/
def openFields (ts : List Token) : (levels : Nat) → List Token
  | 0 => .ofKind (.opening .paren) :: .ofKind (.name "a") :: .ofKind .colon :: ts
  | levels + 1 => .ofKind (.opening .brace) :: .ofKind (.name "f") :: openFields ts levels

/-- In as many fields as may nest, the value of an argument is read without a level left. -/
theorem Call.Reached.literal_openFields {tokens : List Token} {levels : Nat}
    (h : Reached tokens (.selection (levels + 1) (openFields ts (levels + 1)))) :
    Reached tokens (.literal 0 ts) := by
  induction levels with
  | zero =>
    have harguments := h.made (.arguments (.first (.name "f") rfl rfl (by simp)) rfl rfl)
    exact harguments.made (.argument rfl (.first (.name "a") rfl rfl (by simp)) rfl rfl)
  | succ levels ih =>
    -- The field has no arguments, and its selection set is next.
    exact ih (h.made (.nested (.first (.name "f") rfl rfl (by simp)) rfl rfl))

/-- List types that are opened one in the other. -/
def openLists (ts : List Token) (levels : Nat) : List Token :=
  List.replicate levels (.ofKind (.opening .bracket)) ++ ts

/-- In as many list types as may nest, an element type is read without a level left. -/
theorem Call.Reached.typeReference_openLists {tokens : List Token} {levels : Nat}
    (h : Reached tokens (.typeReference levels (openLists ts levels))) :
    Reached tokens (.typeReference 0 ts) := by
  induction levels with
  | zero => exact h
  | succ levels ih => exact ih (h.made (.element rfl))

/-- **Parses get to missing parts beyond the last level**, whatever is next there. -/
theorem Call.exists_reached_zero (ts : List Token) :
    (∃ tokens, Reached tokens (.literal 0 ts))
      ∧ ∃ tokens, Reached tokens (.typeReference 0 ts) := by
  constructor
  · have hdefinition : Reached _ (.definition (openFields ts maxNesting)) :=
      .definition (.here (by simp [openFields, maxNesting, Token.ofKind]))
    exact ⟨_, (hdefinition.made (.anonymous rfl)).literal_openFields⟩
  · have hdefinition : Reached _ (.definition (.ofKind (.name "query")
        :: .ofKind (.opening .paren) :: .ofKind .dollar :: .ofKind (.name "v")
        :: .ofKind .colon :: openLists ts maxNesting)) :=
      .definition (.here (by simp [Token.ofKind]))
    have hvariables := hdefinition.made (.declarations rfl rfl rfl)
    have htype := hvariables.made
      (.variableType rfl (.first .dollar rfl rfl (by simp)) rfl rfl rfl)
    exact ⟨_, htype.typeReference_openLists⟩

end Beyond

/-- **A missing literal or type leaves the closing bracket that is next exactly if there is a level
left**: it is reported once, a literal is illegal and a type is none; what is next and not missing
is passed by a literal. Levels and tokens are any, so that this is about every call that a parse
makes, and there are parses that read parts of these tokens without a level left. -/
theorem Reading.missingPart_left_iff (levels : Nat) (ts : List Token) :
    (IsMissing ts →
      ReadAsMissing levels .value ts (literal levels ts)
        ∧ ∃ remark, (literal levels ts).value = .illegal remark)
    ∧ (IsMissing ts →
      ReadAsMissing levels .type ts (typeReference levels ts)
        ∧ (typeReference levels ts).value = none)
    ∧ (¬ IsMissing ts →
      (literal levels ts).rest <:+ ts.tail ∧ (literal levels ts).rest.length < ts.length)
    ∧ (∃ tokens, Call.Reached tokens (.literal 0 ts))
    ∧ ∃ tokens, Call.Reached tokens (.typeReference 0 ts) := by
  refine ⟨readAsMissing_literal levels, readAsMissing_typeReference levels, fun h => ?_,
    Call.exists_reached_zero ts⟩
  have hpassed := literal_suffix_tail_of_not_isMissing levels h
  have heof : nextKind ts ≠ .eof := fun heof => h (.inr heof)
  exact ⟨hpassed, Nat.lt_of_le_of_lt hpassed.length_le (length_tail_lt heof)⟩

/-- The bracket after a missing literal, with a level left and without one. -/
theorem Reading.missingPart_left_iff_paren :
    (literal 1 [.ofKind (.closing .paren)]).rest = [.ofKind (.closing .paren)]
      ∧ (literal 0 [.ofKind (.closing .paren)]).rest = [] := by
  obtain ⟨hwithin, -⟩ := (missingPart_left_iff 1 [.ofKind (.closing .paren)]).1 (.inl rfl)
  obtain ⟨hbeyond, -⟩ := (missingPart_left_iff 0 [.ofKind (.closing .paren)]).1 (.inl rfl)
  exact ⟨hwithin.left_iff.2 (.inl Nat.one_pos), hbeyond.passed rfl⟩

end GraphQuery
