import GraphQuery.Proofs.Progress
import Mathlib.Data.List.TakeWhile

/-! # Termination

Every round of a loop either leaves the loop or passes a token (`LoopStep.Advances`), so that a loop
needs no more rounds than there are tokens, and one to leave. With as many as that, it does not show
how many there are, and nothing is cut short (`settle_document`): reading comes to an end
without a limit. With the limit there is, what is not cut short is read up to the end of input
(`terminates`). -/

namespace GraphQuery.Reading

variable {α β σ : Type} {construct : Construct} {item : List Token → Reading (Item α)}
  {ts rest : List Token}

/-! ## Rounds -/

/-- **A proper end** of tokens, before which at least one token has been passed. -/
def IsProperEnd (rest ts : List Token) : Prop := rest <:+ ts ∧ rest.length < ts.length

theorem isProperEnd_of_suffix_tail (h : nextKind ts ≠ .eof) (hrest : rest <:+ ts.tail) :
    IsProperEnd rest ts :=
  ⟨suffix_of_tail hrest, hrest.length_le.trans_lt (length_tail_lt h)⟩

/-- **What one round of a loop does.** -/
inductive LoopStep (σ β : Type) where
  /-- The loop is left, with what was read. -/
  | leaves (last : Reading β)
  /-- The loop goes on, after what was read. -/
  | goesOn (soFar : Reading σ)

namespace LoopStep

/-- What a loop reads from a round on, if `next` is what it reads after the round. -/
def andThen (next : σ → List Token → Reading β) : LoopStep σ β → Reading β
  | leaves last => last
  | goesOn soFar => soFar.andThen next

/-- **A round advances** if the loop is left, or at least one token is passed. -/
def Advances (ts : List Token) : LoopStep σ β → Prop
  | leaves _ => True
  | goesOn soFar => IsProperEnd soFar.rest ts

/-- The diagnostics of a round. -/
def diagnostics : LoopStep σ β → List Diagnostic
  | leaves last => last.diagnostics
  | goesOn soFar => soFar.diagnostics

end LoopStep

/-- **One round of reading items**, with the item that is kept if there is one. -/
def itemsRound (construct : Construct) (item : List Token → Reading (Item α)) (ts : List Token) :
    LoopStep (Option α) (Items α) :=
  if construct.endsAt (nextKind ts) then .leaves ((close construct ts).map fun _ => ⟨[], none⟩)
  else if nextKind ts = .comma then .goesOn ⟨none, [], ts.tail⟩
  else
    match (item ts).value with
    | .kept value => .goesOn ((item ts).map fun _ => some value)
    | .skipped => .goesOn ((item ts).map fun _ => none)
    | .spoilt remark => .leaves ((item ts).map fun _ => ⟨[], some remark⟩)

/-- **Items are read round by round**, as long as there are rounds. -/
theorem items_succ (budget : Nat) (ts : List Token) :
    items construct item (budget + 1) ts = (itemsRound construct item ts).andThen fun kept ts =>
      (items construct item budget ts).map fun more =>
        { more with kept := kept.toList ++ more.kept } := by
  rw [items, itemsRound]
  split
  · rfl
  · split
    · rfl
    · cases hvalue : (item ts).value with
      | kept value => simp [andThen, LoopStep.andThen, hvalue]
      | skipped => simp [andThen, LoopStep.andThen, hvalue, map]
      | spoilt remark => simp [andThen, LoopStep.andThen, hvalue, map]

/-- **One round of skipping a group**, with the number of brackets open afterwards. -/
def skipRound (construct : Construct) (depth : Nat) (ts : List Token) : LoopStep Nat Unit :=
  if nextKind ts = .eof then .leaves ⟨(), [.unclosed construct (nextToken ts)], ts⟩
  else if nextKind ts = .opening construct.shape then .goesOn ⟨depth + 1, [], ts.tail⟩
  else if nextKind ts = .closing construct.shape then
    if depth - 1 = 0 then .leaves ⟨(), [], ts.tail⟩ else .goesOn ⟨depth - 1, [], ts.tail⟩
  else .goesOn ⟨depth, [], ts.tail⟩

/-- **A group is skipped round by round**, as long as there are rounds. -/
theorem skipGroup_succ (budget depth : Nat) (ts : List Token) :
    skipGroup construct (budget + 1) depth ts
      = (skipRound construct depth ts).andThen (skipGroup construct budget) := by
  rw [skipGroup, skipRound]
  split
  · rfl
  · split
    · rfl
    · split
      · split <;> rfl
      · rfl

/-! ## Rounds advance -/

section Advances

variable {value : List Token → Reading Literal} {selection : List Token → Reading SelectionSet}

/-- A construct ends at the end of input. -/
theorem nextKind_ne_eof_of_endsAt (h : construct.endsAt (nextKind ts) = false) :
    nextKind ts ≠ .eof := by
  intro heof
  rw [heof] at h
  simp [Construct.endsAt] at h

/-- A round of reading items advances if each item that does not spoil the construct does. -/
theorem advances_itemsRound
    (hitem : construct.endsAt (nextKind ts) = false → (item ts).rest <:+ ts.tail
      ∨ ∃ remark, (item ts).value = .spoilt remark) :
    (itemsRound construct item ts).Advances ts := by
  unfold itemsRound
  split
  · trivial
  · next hends =>
    rw [Bool.not_eq_true] at hends
    have heof := nextKind_ne_eof_of_endsAt hends
    split
    · exact isProperEnd_of_suffix_tail heof List.suffix_rfl
    · -- An item that does not spoil the construct is kept or skipped.
      rcases hitem hends with hrest | ⟨remark, hspoilt⟩
      · split
        · exact isProperEnd_of_suffix_tail heof hrest
        · exact isProperEnd_of_suffix_tail heof hrest
        · trivial
      · rw [hspoilt]
        trivial

/-- **Skipping a group advances**, whatever is next. -/
theorem advances_skipRound (construct : Construct) (depth : Nat) (ts : List Token) :
    (skipRound construct depth ts).Advances ts := by
  unfold skipRound
  split
  · trivial
  · next heof =>
    have htail : IsProperEnd ts.tail ts := isProperEnd_of_suffix_tail heof List.suffix_rfl
    split
    · exact htail
    · split
      · split
        · trivial
        · exact htail
      · exact htail

/-- Skipping a group passes a token if there are rounds for it. -/
theorem skipGroup_suffix_tail {budget depth : Nat} (hbudget : 0 < budget)
    (h : nextKind ts ≠ .eof) : (skipGroup construct budget depth ts).rest <:+ ts.tail := by
  obtain ⟨budget, rfl⟩ := Nat.exists_eq_succ_of_ne_zero hbudget.ne'
  have hstep : ∀ depth, (skipGroup construct budget depth ts.tail).rest <:+ ts.tail :=
    fun depth => (follows_skipGroup construct budget depth ts.tail).suffix
  rw [skipGroup, if_neg h]
  split
  · exact hstep _
  · split
    · split
      · exact List.suffix_rfl
      · exact hstep _
    · exact hstep _

/-- **Arguments advance.** -/
theorem advances_argument (hvalue : Follows value) (ts : List Token) :
    (itemsRound .fieldArguments (argument value) ts).Advances ts := by
  refine advances_itemsRound fun hends => .inl ?_
  unfold argument
  split
  · split
    · exact (hvalue ts.tail.tail).suffix.trans (List.tail_suffix ts.tail)
    · exact List.suffix_rfl
  · exact skipUnexpected_suffix_tail _ _ (nextKind_ne_eof_of_endsAt hends)

-- However many rounds are made of what is read in a round.
variable [Rounds]

/-- What lies too deep is skipped by a token at least, if there are rounds for it. -/
theorem tooDeep_suffix_tail (made : α) (hrounds : 0 < rounds ts)
    (h : nextKind ts ≠ .eof) : (tooDeep made ts).rest <:+ ts.tail := by
  show (skipSubtree ts).rest <:+ ts.tail
  unfold skipSubtree
  split
  · exact skipGroup_suffix_tail hrounds h
  · show dropToken ts <:+ ts.tail
    rw [dropToken_eq_tail h]

/-- A literal passes a token, unless a closing bracket is next, or the end of input. -/
theorem literal_suffix_tail (levels : Nat) (hrounds : 0 < rounds ts)
    (h : nextKind ts ≠ .eof) (hclosing : ∀ shape, nextKind ts ≠ .closing shape) :
    (literal levels ts).rest <:+ ts.tail := by
  cases levels with
  | zero => exact tooDeep_suffix_tail _ hrounds h
  | succ levels =>
    have hvalue : Follows (literal levels) := follows_literal levels
    rw [literal]
    split
    · exact (follows_items (follows_objectField hvalue) _ ts.tail).suffix
    · exact (follows_items (fun ts => hvalue ts) _ ts.tail).suffix
    · exact List.suffix_rfl
    · exact List.suffix_rfl
    · exact List.suffix_rfl
    · exact (follows_variableName ts.tail).suffix
    -- These two are left in place, which is why they are ruled out.
    · next shape hshape => exact absurd hshape (hclosing shape)
    · next heof => exact absurd heof h
    · exact skipUnexpected_suffix_tail _ _ h

/-- **Selection sets advance.** -/
theorem advances_field (hvalue : Follows value)
    (hselection : ∀ ts, nextKind ts = .opening .brace →
      Trail ts (selection ts).diagnostics (selection ts).rest) (ts : List Token) :
    (itemsRound .selectionSet (field value selection) ts).Advances ts := by
  refine advances_itemsRound fun hends => .inl ?_
  unfold field
  split
  · have harguments : Follows (arguments value) := follows_arguments hvalue
    exact ((harguments ts.tail).andThen fun _ ts => follows_nested hselection ts).suffix
  · exact skipUnexpected_suffix_tail _ _ (nextKind_ne_eof_of_endsAt hends)

/-- **Lists advance**, for they end at every closing bracket. -/
theorem advances_listItem (levels : Nat) (hrounds : 0 < rounds ts) :
    (itemsRound .listValue (fun ts => (literal levels ts).map .kept) ts).Advances ts := by
  refine advances_itemsRound fun hends => .inl ?_
  refine literal_suffix_tail levels hrounds (nextKind_ne_eof_of_endsAt hends) ?_
  -- Round and curly brackets end a list as well, in favour of what encloses it.
  intro shape hshape
  rw [hshape] at hends
  cases shape <;> simp [Construct.endsAt, Construct.yieldsTo, Construct.shape] at hends

/-- **Objects advance**: what is not a key, a colon and a value spoils the object. -/
theorem advances_objectField (hvalue : Follows value) (ts : List Token) :
    (itemsRound .objectValue (objectField value) ts).Advances ts := by
  refine advances_itemsRound fun _ => ?_
  unfold objectField
  split
  · split
    · exact .inl ((hvalue ts.tail.tail).suffix.trans (List.tail_suffix ts.tail))
    · exact .inr ⟨Expectation.objectColon.phrase, rfl⟩
  · exact .inr ⟨Expectation.objectKey.phrase, rfl⟩

/-- **Declared variables advance.** -/
theorem advances_variableDefinition (ts : List Token) :
    (itemsRound .variableDefinitions variableDefinition ts).Advances ts := by
  refine advances_itemsRound fun hends => .inl ?_
  cases hnext : nextKind ts with
  | dollar => exact (trail_variableDefinition hnext).suffix
  | _ =>
    unfold variableDefinition
    rw [hnext]
    exact skipUnexpected_suffix_tail _ _ (nextKind_ne_eof_of_endsAt hends)

/-- **Bodies of types advance.** -/
theorem advances_fieldDefinition (ts : List Token) :
    (itemsRound .typeDefinition fieldDefinition ts).Advances ts := by
  refine advances_itemsRound fun hends => .inl ?_
  cases hnext : nextKind ts with
  | name name => exact (trail_fieldDefinition hnext).suffix
  | _ =>
    unfold fieldDefinition
    rw [hnext]
    exact skipUnexpected_suffix_tail _ _ (nextKind_ne_eof_of_endsAt hends)

end Advances

/-! ## Unhindered readings -/

/-- **A reading is unhindered** if nothing was cut short for want of rounds. -/
def Unhindered (r : Reading α) : Prop := ∀ d ∈ r.diagnostics, d.cause ≠ .iterationLimitExceeded

namespace Unhindered

/-- A single diagnostic on something else. -/
theorem single {value : α} {d : Diagnostic} (h : d.cause ≠ .iterationLimitExceeded) :
    Unhindered ⟨value, [d], rest⟩ :=
  List.forall_mem_singleton.2 h

/-- Nothing recorded. -/
theorem silent {value : α} : Unhindered ⟨value, [], rest⟩ := nofun

end Unhindered

theorem unhindered_unexpected (expectation : Expectation) (value : α) (ts : List Token) :
    (unexpected expectation value ts).Unhindered := by
  refine .single ?_
  unfold Diagnostic.unexpected
  cases (nextToken ts).kind <;> nofun

theorem unhindered_skipUnexpected (expectation : Expectation) (value : α) (ts : List Token) :
    (skipUnexpected expectation value ts).Unhindered :=
  unhindered_unexpected expectation value ts

theorem unhindered_close (construct : Construct) (ts : List Token) :
    (close construct ts).Unhindered := by
  unfold close
  split
  · exact .single nofun
  · split
    · exact .silent
    · exact .single nofun
  · exact unhindered_unexpected _ _ ts

theorem unhindered_nullability (ts : List Token) : (nullability ts).Unhindered := by
  unfold nullability
  split <;> exact .silent

theorem unhindered_variableName (ts : List Token) : (variableName ts).Unhindered := by
  unfold variableName
  split
  · exact .silent
  · exact unhindered_unexpected _ _ ts

theorem unhindered_name? (ts : List Token) : (name? ts).Unhindered := by
  unfold name?
  split <;> exact .silent

/-! ## Rounds that suffice -/

/-- **Two readings settle** what is read if they are the same and unhindered. -/
structure Settle (r s : Reading α) : Prop where
  /-- They are the same. -/
  eq : r = s
  /-- Nothing was cut short. -/
  unhindered : r.Unhindered

namespace Settle

variable {r s : Reading α}

/-- An unhindered reading settles what is read. -/
theorem refl (h : r.Unhindered) : Settle r r := ⟨rfl, h⟩

theorem map (h : Settle r s) (f : α → β) : Settle (r.map f) (s.map f) :=
  ⟨congrArg (Reading.map f) h.eq, h.unhindered⟩

theorem andThen {f g : α → List Token → Reading β} (h : Settle r s)
    (hnext : Settle (f r.value r.rest) (g r.value r.rest)) :
    Settle (r.andThen f) (s.andThen g) := by
  obtain rfl := h.eq
  refine ⟨?_, List.forall_mem_append.2 ⟨h.unhindered, hnext.unhindered⟩⟩
  rw [Reading.andThen, Reading.andThen, hnext.eq]

end Settle

/-- What is read from a round on is settled, if it is whenever the loop goes on. -/
theorem LoopStep.settle_andThen {round : LoopStep σ β} {f g : σ → List Token → Reading β}
    (hround : ∀ d ∈ round.diagnostics, d.cause ≠ .iterationLimitExceeded)
    (hnext : ∀ soFar, round = .goesOn soFar →
      Settle (f soFar.value soFar.rest) (g soFar.value soFar.rest)) :
    Settle (round.andThen f) (round.andThen g) := by
  cases round with
  | leaves last => exact .refl hround
  | goesOn soFar => exact (Settle.refl hround).andThen (hnext soFar rfl)

/-- A round is the same for items that are settled, and records no want of rounds. -/
theorem itemsRound_eq (construct : Construct) {other : List Token → Reading (Item α)}
    (h : Settle (item ts) (other ts)) :
    itemsRound construct item ts = itemsRound construct other ts
      ∧ ∀ d ∈ (itemsRound construct item ts).diagnostics, d.cause ≠ .iterationLimitExceeded := by
  refine ⟨?_, ?_⟩
  · rw [itemsRound, itemsRound, h.eq]
  · unfold itemsRound
    split
    · exact unhindered_close construct ts
    · split
      · nofun
      · split <;> exact h.unhindered

/-- **Items are settled** if there are more rounds than tokens both times. -/
theorem settle_items {other : List Token → Reading (Item α)} {budget more : Nat}
    (hitem : ∀ rest, rest <:+ ts → Settle (item rest) (other rest))
    (hround : ∀ rest, rest <:+ ts → (itemsRound construct item rest).Advances rest)
    (hbudget : ts.length < budget) (hmore : ts.length < more) :
    Settle (items construct item budget ts) (items construct other more ts) := by
  induction budget generalizing more ts with
  | zero => exact absurd hbudget (Nat.not_lt_zero _)
  | succ budget ih =>
    obtain ⟨more, rfl⟩ := Nat.exists_eq_succ_of_ne_zero (Nat.ne_zero_of_lt hmore)
    obtain ⟨hsame, hdiagnostics⟩ := itemsRound_eq construct (hitem ts List.suffix_rfl)
    rw [items_succ, items_succ, ← hsame]
    refine LoopStep.settle_andThen hdiagnostics fun soFar hcase => ?_
    -- What is left after the round is shorter by a token, and there is one round less for it.
    have hadvances := hround ts List.suffix_rfl
    rw [hcase] at hadvances
    obtain ⟨hsuffix, hshorter⟩ : IsProperEnd soFar.rest ts := hadvances
    have hrest : Settle (items construct item budget soFar.rest)
        (items construct other more soFar.rest) :=
      ih (fun rest h => hitem rest (h.trans hsuffix)) (fun rest h => hround rest (h.trans hsuffix))
        (by omega) (by omega)
    exact hrest.map _

/-- **Skipping a group is settled** if there are more rounds than tokens both times. -/
theorem settle_skipGroup {budget more : Nat} (depth : Nat) (hbudget : ts.length < budget)
    (hmore : ts.length < more) :
    Settle (skipGroup construct budget depth ts) (skipGroup construct more depth ts) := by
  induction budget generalizing more depth ts with
  | zero => exact absurd hbudget (Nat.not_lt_zero _)
  | succ budget ih =>
    obtain ⟨more, rfl⟩ := Nat.exists_eq_succ_of_ne_zero (Nat.ne_zero_of_lt hmore)
    have hdiagnostics : ∀ d ∈ (skipRound construct depth ts).diagnostics,
        d.cause ≠ .iterationLimitExceeded := by
      unfold skipRound
      split
      · exact List.forall_mem_singleton.2 nofun
      · split
        · nofun
        · split
          · split <;> nofun
          · nofun
    rw [skipGroup_succ, skipGroup_succ]
    refine LoopStep.settle_andThen hdiagnostics fun soFar hcase => ?_
    -- As above, what is left is shorter by a token.
    have hadvances := advances_skipRound construct depth ts
    rw [hcase] at hadvances
    have hshorter : soFar.rest.length < ts.length := hadvances.2
    exact ih soFar.value (by omega) (by omega)

/-- **Two numbers of rounds suffice** for tokens if, wherever something starts among them, there are
more rounds than tokens left both times. -/
def Suffice (one other : Rounds) (ts : List Token) : Prop :=
  ∀ rest, rest <:+ ts → rest.length < one.rounds rest ∧ rest.length < other.rounds rest

namespace Suffice

variable {one other : Rounds}

theorem of_suffix (h : Suffice one other ts) (hrest : rest <:+ ts) : Suffice one other rest :=
  fun last hlast => h last (hlast.trans hrest)

theorem tail (h : Suffice one other ts) : Suffice one other ts.tail :=
  h.of_suffix (List.tail_suffix ts)

theorem left (h : Suffice one other ts) : ts.length < one.rounds ts := (h ts List.suffix_rfl).1

theorem right (h : Suffice one other ts) : ts.length < other.rounds ts := (h ts List.suffix_rfl).2

end Suffice

section Settle

theorem settle_argument {value more : List Token → Reading Literal}
    (hvalue : ∀ rest, rest <:+ ts → Settle (value rest) (more rest)) :
    Settle (argument value ts) (argument more ts) := by
  unfold argument
  split
  · split
    · exact (hvalue _ (suffix_of_tail (List.tail_suffix _))).map _
    · exact .refl (unhindered_unexpected _ _ _)
  · exact .refl (unhindered_skipUnexpected _ _ _)

-- What is not marked with the other rounds is read within the one.
variable {other : Rounds} [one : Rounds]

theorem settle_tooDeep (value : α) (h : Suffice one other ts) :
    Settle (tooDeep value ts) (@tooDeep _ other value ts) := by
  have hskipped : Settle (skipSubtree ts) (@skipSubtree other ts) := by
    unfold skipSubtree
    split
    · exact settle_skipGroup 0 h.left h.right
    · exact .refl .silent
  refine ⟨?_, List.forall_mem_cons.2 ⟨nofun, hskipped.unhindered⟩⟩
  unfold tooDeep
  rw [hskipped.eq]

theorem settle_typeReference (levels : Nat) (h : Suffice one other ts) :
    Settle (typeReference levels ts) (@typeReference other levels ts) := by
  induction levels generalizing ts with
  | zero => exact settle_tooDeep none h
  | succ levels ih =>
    unfold typeReference
    split
    · refine (ih h.tail).andThen ((Settle.refl (unhindered_close _ _)).andThen ?_)
      exact (Settle.refl (unhindered_nullability _)).map _
    · exact (Settle.refl (unhindered_nullability _)).map _
    · exact .refl (unhindered_unexpected _ _ _)

theorem settle_spoilObject (expectation : Expectation) (h : Suffice one other ts) :
    Settle (spoilObject expectation ts) (@spoilObject other expectation ts) :=
  (Settle.refl (unhindered_unexpected expectation () ts)).andThen
    ((settle_skipGroup 1 h.left h.right).map _)

theorem settle_objectField {value more : List Token → Reading Literal}
    (hvalue : ∀ rest, rest <:+ ts → Settle (value rest) (more rest)) (h : Suffice one other ts) :
    Settle (objectField value ts) (@objectField other more ts) := by
  unfold objectField
  split
  · split
    · exact (hvalue _ (suffix_of_tail (List.tail_suffix _))).map _
    · exact settle_spoilObject _ h.tail
  · exact settle_spoilObject _ h

theorem settle_literal (levels : Nat) (h : Suffice one other ts) :
    Settle (literal levels ts) (@literal other levels ts) := by
  induction levels generalizing ts with
  | zero => exact settle_tooDeep _ h
  | succ levels ih =>
    -- Items are read behind the opening bracket, where the rounds suffice as well.
    unfold literal
    split
    · refine (settle_items (fun rest hrest => ?_) (fun rest _ => ?_) h.tail.left h.tail.right).map _
      · have hrounds := h.tail.of_suffix hrest
        exact settle_objectField (fun last hlast => ih (hrounds.of_suffix hlast)) hrounds
      · exact advances_objectField (follows_literal levels) rest
    · refine (settle_items (fun rest hrest => ?_) (fun rest hrest => ?_) h.tail.left
        h.tail.right).map _
      · exact (ih (h.tail.of_suffix hrest)).map _
      · exact advances_listItem levels (Nat.zero_lt_of_lt (h.tail.of_suffix hrest).left)
    · exact .refl .silent
    · exact .refl .silent
    · exact .refl .silent
    · exact (Settle.refl (unhindered_variableName _)).map _
    · exact .refl (unhindered_unexpected _ _ _)
    · exact .refl (unhindered_unexpected _ _ _)
    · exact .refl (unhindered_skipUnexpected _ _ _)

theorem settle_arguments (levels : Nat) (h : Suffice one other ts) :
    Settle (arguments (literal levels) ts) (@arguments other (@literal other levels) ts) := by
  unfold arguments
  split
  · refine (settle_items (fun rest hrest => ?_) (fun rest _ => ?_) h.tail.left h.tail.right).map _
    · exact settle_argument fun last hlast =>
        settle_literal levels (h.tail.of_suffix (hlast.trans hrest))
    · exact advances_argument (follows_literal levels) rest
  · exact .refl .silent

theorem settle_field (levels : Nat) {selection more : List Token → Reading SelectionSet}
    (hselection : ∀ rest, rest <:+ ts → Settle (selection rest) (more rest))
    (h : Suffice one other ts) :
    Settle (field (literal levels) selection ts)
      (@field other (@literal other levels) more ts) := by
  unfold field
  split
  · have harguments : Follows (arguments (literal levels)) :=
      follows_arguments (follows_literal levels)
    refine (settle_arguments levels h.tail).andThen (Settle.map ?_ _)
    unfold nested
    split
    · exact (hselection _ (suffix_of_tail (harguments ts.tail).suffix)).map _
    · exact .refl .silent
  · exact .refl (unhindered_skipUnexpected _ _ _)

theorem settle_selectionSet (levels : Nat) (h : Suffice one other ts) :
    Settle (selectionSet levels ts) (@selectionSet other levels ts) := by
  induction levels generalizing ts with
  | zero => exact settle_tooDeep [] h
  | succ levels ih =>
    unfold selectionSet
    refine (settle_items (fun rest hrest => ?_) (fun rest _ => ?_) h.tail.left h.tail.right).map _
    · have hrounds := h.tail.of_suffix hrest
      exact settle_field levels (fun last hlast => ih (hrounds.of_suffix hlast)) hrounds
    · exact advances_field (follows_literal levels) (trail_selectionSet levels) rest

theorem settle_variableDefinition (h : Suffice one other ts) :
    Settle (variableDefinition ts) (@variableDefinition other ts) := by
  unfold variableDefinition
  split
  · have hrest := h.tail.of_suffix (follows_variableName ts.tail).suffix
    refine (Settle.refl (unhindered_variableName _)).andThen ?_
    split
    · exact .refl .silent
    · split
      · exact (settle_typeReference maxNesting hrest.tail).map _
      · exact .refl .silent
  · exact .refl (unhindered_skipUnexpected _ _ _)

theorem settle_variableDefinitions (h : Suffice one other ts) :
    Settle (variableDefinitions ts) (@variableDefinitions other ts) := by
  unfold variableDefinitions
  split
  · refine (settle_items (fun rest hrest => ?_) (fun rest _ => ?_) h.tail.left h.tail.right).map _
    · exact settle_variableDefinition (h.tail.of_suffix hrest)
    · exact advances_variableDefinition rest
  · exact .refl .silent

theorem settle_rootSelection (kind : OperationKind) (h : Suffice one other ts) :
    Settle (rootSelection kind ts) (@rootSelection other kind ts) := by
  unfold rootSelection
  split
  · exact settle_selectionSet maxNesting h
  · exact .refl (unhindered_unexpected _ _ _)

theorem settle_operation (kind : OperationKind) (h : Suffice one other ts) :
    Settle (operation kind ts) (@operation other kind ts) := by
  have hname := h.of_suffix (follows_name? ts).suffix
  have hdeclared : Follows variableDefinitions := follows_variableDefinitions
  refine (Settle.refl (unhindered_name? ts)).andThen ?_
  refine (settle_variableDefinitions hname).andThen ?_
  exact (settle_rootSelection kind (hname.of_suffix (hdeclared _).suffix)).map _

theorem settle_argumentDefinitions (h : Suffice one other ts) :
    Settle (argumentDefinitions ts) (@argumentDefinitions other ts) := by
  unfold argumentDefinitions
  split
  · exact settle_skipGroup 0 h.left h.right
  · exact .refl .silent

theorem settle_fieldDefinition (h : Suffice one other ts) :
    Settle (fieldDefinition ts) (@fieldDefinition other ts) := by
  unfold fieldDefinition
  split
  · have htaken : Follows argumentDefinitions := follows_argumentDefinitions
    have hrest := h.tail.of_suffix (htaken ts.tail).suffix
    refine (settle_argumentDefinitions h.tail).andThen ?_
    split
    · exact (settle_typeReference maxNesting hrest.tail).map _
    · exact .refl (unhindered_unexpected _ _ _)
  · exact .refl (unhindered_skipUnexpected _ _ _)

theorem settle_typeDefinition (h : Suffice one other ts) :
    Settle (typeDefinition ts) (@typeDefinition other ts) := by
  unfold typeDefinition
  split
  · split
    · have hbody := h.tail.tail
      refine (settle_items (fun rest hrest => ?_) (fun rest _ => ?_) hbody.left hbody.right).map _
      · exact settle_fieldDefinition (hbody.of_suffix hrest)
      · exact advances_fieldDefinition rest
    · exact .refl (unhindered_unexpected _ _ _)
  · refine (Settle.refl (unhindered_unexpected .typeName () ts)).andThen ?_
    split
    · exact (settle_skipGroup 0 h.left h.right).map _
    · exact .refl .silent

theorem settle_definition (h : Suffice one other ts) :
    Settle (definition ts) (@definition other ts) := by
  unfold definition
  split
  · exact (settle_rootSelection .query h).map _
  · split
    · exact (settle_operation _ h.tail).map _
    · split
      · exact (settle_typeDefinition h.tail).map _
      · exact .refl (unhindered_skipUnexpected _ _ _)
  · exact .refl (unhindered_skipUnexpected _ _ _)

/-- **Definitions are settled** if there are more rounds than tokens both times. -/
theorem settle_definitions {budget more : Nat} (h : Suffice one other ts)
    (hbudget : ts.length < budget) (hmore : ts.length < more) :
    Settle (definitions budget ts) (@definitions other more ts) := by
  induction budget generalizing more ts with
  | zero => exact absurd hbudget (Nat.not_lt_zero _)
  | succ budget ih =>
    obtain ⟨more, rfl⟩ := Nat.exists_eq_succ_of_ne_zero (Nat.ne_zero_of_lt hmore)
    unfold definitions
    split
    · exact .refl .silent
    · next heof =>
      have hsuffix : (definition ts).rest <:+ ts.tail := definition_suffix_tail heof
      have hle := hsuffix.length_le
      have hlt := length_tail_lt heof
      have hrest : Settle (definitions budget (definition ts).rest)
          (@definitions other more (definition ts).rest) :=
        ih (h.tail.of_suffix hsuffix) (by omega) (by omega)
      exact (settle_definition h).andThen (hrest.map _)

/-- **Documents are settled** by rounds that suffice. -/
theorem settle_document (h : Suffice one other ts) :
    Settle (document ts) (@document other ts) :=
  (settle_definitions h h.left h.right).map _

end Settle

/-! ## Progress and termination -/

/-- **Reads a document within rounds**, of which there may be as many as one likes. -/
def documentWithin (rounds : List Token → Nat) : List Token → Reading Document := @document ⟨rounds⟩

/-- **The loops advance** at given tokens, at whatever level and with however many brackets open. -/
structure LoopsAdvance (ts : List Token) : Prop where
  /-- The fields of a selection set. -/
  selectionSet : ∀ levels,
    (itemsRound .selectionSet (field (literal levels) (selectionSet levels)) ts).Advances ts
  /-- The arguments of a field. -/
  arguments : ∀ levels, (itemsRound .fieldArguments (argument (literal levels)) ts).Advances ts
  /-- The values of a list. -/
  listValue : ∀ levels,
    (itemsRound .listValue (fun ts => (literal levels ts).map .kept) ts).Advances ts
  /-- The fields of an object. -/
  objectValue : ∀ levels,
    (itemsRound .objectValue (objectField (literal levels)) ts).Advances ts
  /-- The variables of an operation. -/
  variableDefinitions : (itemsRound .variableDefinitions variableDefinition ts).Advances ts
  /-- The fields of a type. -/
  typeDefinition : (itemsRound .typeDefinition fieldDefinition ts).Advances ts
  /-- The tokens of a group that is skipped. -/
  skipGroup : ∀ construct depth, (skipRound construct depth ts).Advances ts

/-- **Every loop advances**, wherever it stands. -/
theorem loopsAdvance (ts : List Token) : LoopsAdvance ts where
  selectionSet levels := advances_field (follows_literal levels) (trail_selectionSet levels) ts
  arguments levels := advances_argument (follows_literal levels) ts
  listValue levels := advances_listItem levels (show 0 < maxItems by decide)
  objectValue levels := advances_objectField (follows_literal levels) ts
  variableDefinitions := advances_variableDefinition ts
  typeDefinition := advances_fieldDefinition ts
  skipGroup construct depth := advances_skipRound construct depth ts

/-- What a trail leaves at the end of input is all from the first end of input on. -/
theorem Trail.rest_eq_dropWhile {ds : List Diagnostic} (h : Trail ts ds rest)
    (heof : nextKind rest = .eof) : rest = ts.dropWhile (·.kind ≠ .eof) := by
  obtain ⟨passed, rfl, hpassed⟩ := h.exists_passed
  rw [List.dropWhile_append_of_pos (by simpa using hpassed)]
  cases rest with
  | nil => rfl
  | cons t ts => rw [List.dropWhile_cons_of_neg (by simpa using heof)]

/-- Definitions that are not cut short are read up to the end of input. -/
theorem nextKind_rest_definitions {budget : Nat} (h : (definitions budget ts).Unhindered) :
    nextKind (definitions budget ts).rest = .eof := by
  induction budget generalizing ts with
  | zero =>
    rw [definitions] at h ⊢
    split at h
    · next heof => rwa [if_pos heof]
    · -- Without rounds left, it is recorded that there are none.
      exact absurd rfl (h _ (List.mem_singleton_self _))
  | succ budget ih =>
    rw [definitions] at h ⊢
    split at h
    · next heof => rwa [if_pos heof]
    · next heof =>
      rw [if_neg heof]
      exact ih (List.forall_mem_append.1 h).2

/-- **Readers make progress and terminate.** A definition passes at least one token. So does a round
of a loop, unless it leaves the loop. With more rounds than tokens, a document is therefore read in
the same way however many there are, and nothing is cut short; and with the rounds there are, what
is not cut short is read up to the first end of input. -/
theorem terminates (ts : List Token) :
    (nextKind ts ≠ .eof → IsProperEnd (definition ts).rest ts)
      ∧ LoopsAdvance ts
      ∧ (documentWithin (fun _ => maxItems) = document
        ∧ ∀ rounds : List Token → Nat, (∀ rest, rest <:+ ts → rest.length < rounds rest) →
          documentWithin rounds ts = documentWithin (fun rest => rest.length + 1) ts
            ∧ (documentWithin rounds ts).Unhindered)
      ∧ ((document ts).Unhindered → (document ts).rest = ts.dropWhile (·.kind ≠ .eof)) := by
  refine ⟨?_, loopsAdvance ts, ⟨rfl, ?_⟩, ?_⟩
  · intro heof
    exact isProperEnd_of_suffix_tail heof (definition_suffix_tail heof)
  · intro rounds hrounds
    have hsuffice : Suffice ⟨rounds⟩ ⟨fun rest => rest.length + 1⟩ ts :=
      fun rest hrest => ⟨hrounds rest hrest, Nat.lt_succ_self _⟩
    have hsettle : Settle (documentWithin rounds ts)
        (documentWithin (fun rest => rest.length + 1) ts) :=
      @settle_document _ _ ⟨rounds⟩ hsuffice
    exact ⟨hsettle.eq, hsettle.unhindered⟩
  · intro hunhindered
    exact (follows_document ts).rest_eq_dropWhile (nextKind_rest_definitions hunhindered)

/-- A list that is never closed, in arguments that are never closed, and a second end of input. -/
theorem terminates_openList :
    (document ([.opening .brace, .name "a", .opening .paren, .name "b", .colon, .opening .bracket,
        .int "1", .eof, .name "c", .eof].map fun kind => ⟨kind, ⟨0, 0⟩⟩)).rest
      = [.eof, .name "c", .eof].map fun kind => ⟨kind, ⟨0, 0⟩⟩ := by
  have hrest := (terminates ([.opening .brace, .name "a", .opening .paren, .name "b", .colon,
    .opening .bracket, .int "1", .eof, .name "c", .eof].map fun kind => ⟨kind, ⟨0, 0⟩⟩)).2.2.2
  rw [hrest]
  · decide
  · show ∀ d ∈ _, _
    decide +kernel

end GraphQuery.Reading
