import GraphQuery.Reading.Recovery

/-! # Balanced brackets

Tokens are **balanced** in one shape of brackets when no closer comes before its opener and none is
left open; brackets of other shapes do not count. A group is skipped by counting: skipping passes
exactly the tokens up to the closer that balances the opener. -/

namespace GraphQuery

/-! ## Counting brackets -/

/-- What a token adds to the number of open brackets. -/
def Token.Kind.weight (shape : Delimiter) (kind : Token.Kind) : Int :=
  if kind = .opening shape then 1 else if kind = .closing shape then -1 else 0

/-- **The excess** of opening over closing brackets of a shape. -/
def excess (shape : Delimiter) : List Token → Int
  | [] => 0
  | t :: ts => t.kind.weight shape + excess shape ts

variable {shape : Delimiter}

@[simp] theorem excess_nil : excess shape [] = 0 := rfl

@[simp] theorem excess_cons (t : Token) (ts : List Token) :
    excess shape (t :: ts) = t.kind.weight shape + excess shape ts := rfl

@[simp] theorem excess_append (as bs : List Token) :
    excess shape (as ++ bs) = excess shape as + excess shape bs := by
  induction as with
  | nil => simp
  | cons t ts ih => rw [List.cons_append, excess_cons, ih, excess_cons, Int.add_assoc]

@[simp] theorem weight_opening : (Token.Kind.opening shape).weight shape = 1 := if_pos rfl

@[simp] theorem weight_closing : (Token.Kind.closing shape).weight shape = -1 := by
  rw [Token.Kind.weight, if_neg (by simp), if_pos rfl]

/-- Whether tokens never close the last of `depth` open brackets. -/
def StaysOpen (shape : Delimiter) (depth : Int) (ts : List Token) : Prop :=
  ∀ before, before <+: ts → 0 < depth + excess shape before

theorem StaysOpen.pos {depth : Int} {ts : List Token} (h : StaysOpen shape depth ts) :
    0 < depth := by
  simpa using h [] List.nil_prefix

/-- More open brackets close no sooner. -/
theorem StaysOpen.mono {depth more : Int} {ts : List Token} (h : StaysOpen shape depth ts)
    (hle : depth ≤ more) : StaysOpen shape more ts := by
  intro before hbefore
  have hpos := h before hbefore
  omega

@[simp] theorem staysOpen_nil {depth : Int} : StaysOpen shape depth [] ↔ 0 < depth := by
  refine ⟨StaysOpen.pos, fun h before hbefore => ?_⟩
  rw [List.prefix_nil.1 hbefore]
  simpa using h

/-- Staying open goes on token by token. -/
theorem staysOpen_cons {depth : Int} {t : Token} {ts : List Token} :
    StaysOpen shape depth (t :: ts)
      ↔ 0 < depth ∧ StaysOpen shape (depth + t.kind.weight shape) ts := by
  constructor
  · intro h
    refine ⟨h.pos, fun before hbefore => ?_⟩
    -- A prefix of the rest is a prefix of the whole with the first token put before it.
    have hlonger := h (t :: before) (List.cons_prefix_cons.2 ⟨rfl, hbefore⟩)
    rw [excess_cons] at hlonger
    omega
  · rintro ⟨hpos, h⟩ before hbefore
    rcases List.prefix_cons_iff.1 hbefore with rfl | ⟨shorter, rfl, hshorter⟩
    · simpa using hpos
    · have hrest := h shorter hshorter
      rw [excess_cons]
      omega

/-- Staying open goes on from one stretch of tokens to the next. -/
theorem staysOpen_append {depth : Int} {as bs : List Token} :
    StaysOpen shape depth (as ++ bs)
      ↔ StaysOpen shape depth as ∧ StaysOpen shape (depth + excess shape as) bs := by
  induction as generalizing depth with
  | nil =>
    rw [List.nil_append, staysOpen_nil, excess_nil, Int.add_zero]
    exact ⟨fun h => ⟨h.pos, h⟩, And.right⟩
  | cons t ts ih =>
    rw [List.cons_append, staysOpen_cons, staysOpen_cons, ih, excess_cons, Int.add_assoc, and_assoc]

/-! ## Balanced tokens -/

/-- **Balanced tokens** in one shape of brackets. -/
structure Balanced (shape : Delimiter) (ts : List Token) : Prop where
  /-- The input does not end among them. -/
  noEof : ∀ t ∈ ts, t.kind ≠ .eof
  /-- No closer comes before its opener: a bracket opened before them stays open. -/
  nested : StaysOpen shape 1 ts
  /-- No opener is left without its closer. -/
  level : excess shape ts = 0

namespace Balanced

theorem nil : Balanced shape [] := ⟨by simp, by simp, rfl⟩

/-- A token that is no bracket is balanced by itself. -/
theorem singleton {t : Token} (heof : t.kind ≠ .eof) (h : t.kind.weight shape = 0) :
    Balanced shape [t] := by
  refine ⟨by simpa using heof, ?_, by simpa using h⟩
  rw [staysOpen_cons, h, staysOpen_nil]
  omega

/-- Balanced tokens may follow each other. -/
theorem append {as bs : List Token} (ha : Balanced shape as) (hb : Balanced shape bs) :
    Balanced shape (as ++ bs) := by
  refine ⟨fun t ht => ?_, ?_, by rw [excess_append, ha.level, hb.level]; rfl⟩
  · rcases List.mem_append.1 ht with ht | ht
    · exact ha.noEof t ht
    · exact hb.noEof t ht
  · rw [staysOpen_append, ha.level, Int.add_zero]
    exact ⟨ha.nested, hb.nested⟩

/-- A token that is no bracket may precede balanced tokens. -/
theorem cons {t : Token} {ts : List Token} (hts : Balanced shape ts)
    (heof : t.kind ≠ .eof) (h : t.kind.weight shape = 0) : Balanced shape (t :: ts) :=
  (singleton heof h).append hts

/-- Balanced tokens in a pair of brackets, of whatever shape, are balanced. -/
theorem group {inside : List Token} (h : Balanced shape inside) (other : Delimiter)
    (opening closing : Span) :
    Balanced shape (⟨.opening other, opening⟩ :: (inside ++ [⟨.closing other, closing⟩])) := by
  -- Brackets of the shape lift what is between them by one level; other brackets do not count.
  by_cases hother : other = shape
  · subst hother
    refine ⟨?_, ?_, by simp [h.level]⟩
    · intro t ht
      simp only [List.mem_cons, List.mem_append, List.not_mem_nil, or_false] at ht
      rcases ht with rfl | ht | rfl
      · simp
      · exact h.noEof t ht
      · simp
    · rw [staysOpen_cons, staysOpen_append, weight_opening, h.level, staysOpen_cons, weight_closing,
        staysOpen_nil]
      exact ⟨by omega, h.nested.mono (by omega), by omega, by omega⟩
  · have hopen : Token.Kind.weight shape (.opening other) = 0 := by
      simp [Token.Kind.weight, hother]
    have hclose : Token.Kind.weight shape (.closing other) = 0 := by
      simp [Token.Kind.weight, hother]
    exact (h.append (singleton (by simp) hclose)).cons (by simp) hopen

end Balanced

/-! ## Skipping a group -/

namespace Reading

variable {construct : Construct}

/-- Skipping passes tokens that leave the group open, and counts their brackets. -/
theorem skipGroup_append {inside : List Token} {depth budget : Nat} (rest : List Token)
    (heof : ∀ t ∈ inside, t.kind ≠ .eof) (hopen : StaysOpen construct.shape depth inside) :
    skipGroup construct (inside.length + budget) depth (inside ++ rest)
      = skipGroup construct budget (depth + excess construct.shape inside).toNat rest := by
  induction inside generalizing depth with
  | nil => simp
  | cons t ts ih =>
    obtain ⟨hpos, hts⟩ := staysOpen_cons.1 hopen
    have heof' : ∀ t ∈ ts, t.kind ≠ .eof := fun s hs => heof s (List.mem_cons_of_mem t hs)
    rw [List.length_cons, Nat.add_right_comm, List.cons_append, skipGroup, nextKind_cons,
      if_neg (heof t List.mem_cons_self), excess_cons, List.tail_cons]
    -- Only brackets of the construct's shape change the depth, and none of these ends the group.
    by_cases h₁ : t.kind = .opening construct.shape
    · rw [h₁, weight_opening] at hts ⊢
      rw [if_pos rfl, ih heof' (by simpa using hts)]
      congr 2
      omega
    · rw [if_neg h₁]
      by_cases h₂ : t.kind = .closing construct.shape
      · rw [h₂, weight_closing] at hts ⊢
        have hdeeper := hts.pos
        rw [if_pos rfl, if_neg (by omega), ih heof' (by rwa [Int.natCast_sub (by omega)])]
        congr 2
        omega
      · have hw : t.kind.weight construct.shape = 0 := by simp [Token.Kind.weight, h₁, h₂]
        rw [hw, Int.add_zero] at hts
        rw [if_neg h₂, ih heof' hts, hw, Int.zero_add]

/-- **Skipping a group** passes its brackets and the balanced tokens between them, as long as they
are no more tokens than there are rounds. -/
theorem skipGroup_group {inside : List Token} {budget : Nat} (opening closing : Span)
    (rest : List Token) (h : Balanced construct.shape inside) (hlen : inside.length + 2 ≤ budget) :
    skipGroup construct budget 0
        (⟨.opening construct.shape, opening⟩ ::
          (inside ++ ⟨.closing construct.shape, closing⟩ :: rest))
      = ⟨(), [], rest⟩ := by
  obtain ⟨spare, rfl⟩ := Nat.exists_eq_add_of_le hlen
  rw [show inside.length + 2 + spare = inside.length + (spare + 1) + 1 by omega, skipGroup,
    nextKind_cons, if_neg (by simp), if_pos rfl, List.tail_cons,
    skipGroup_append _ h.noEof (by simpa using h.nested), h.level]
  simp [skipGroup]

/-- Skipping a group that is longer than there are rounds records something. -/
theorem diagnostics_skipGroup_ne_nil {inside : List Token} {budget : Nat} (opening closing : Span)
    (rest : List Token) (h : Balanced construct.shape inside) (hlen : budget < inside.length + 2) :
    (skipGroup construct budget 0
        (⟨.opening construct.shape, opening⟩ ::
          (inside ++ ⟨.closing construct.shape, closing⟩ :: rest))).diagnostics ≠ [] := by
  have hzero : ∀ depth ts, (skipGroup construct 0 depth ts).diagnostics ≠ [] := by
    intro depth ts
    rw [skipGroup]
    split <;> simp
  cases budget with
  | zero => exact hzero _ _
  | succ budget =>
    -- The rounds run out after as many tokens of the group as there are rounds.
    have htake : (inside.take budget).length = budget := List.length_take_of_le (by omega)
    have hsplit : inside.take budget ++ inside.drop budget = inside := List.take_append_drop ..
    have hopen : StaysOpen construct.shape ((0 + 1 : Nat) : Int) (inside.take budget) := by
      have hnested := h.nested
      rw [← hsplit, staysOpen_append] at hnested
      simpa using hnested.1
    have hskip : skipGroup construct ((inside.take budget).length + 0) (0 + 1)
          (inside.take budget
            ++ (inside.drop budget ++ ⟨.closing construct.shape, closing⟩ :: rest)) = _ :=
      skipGroup_append _ (fun t ht => h.noEof t (List.mem_of_mem_take ht)) hopen
    rw [← List.append_assoc, hsplit, htake, Nat.add_zero] at hskip
    rw [skipGroup, nextKind_cons, if_neg (by simp), if_pos rfl, List.tail_cons, hskip]
    exact hzero _ _

/-- A token of a known kind that is next stands at the head of the list. -/
theorem eq_cons_of_nextKind {ts : List Token} {kind : Token.Kind} (h : nextKind ts = kind)
    (heof : kind ≠ .eof) : ∃ place, ts = ⟨kind, place⟩ :: ts.tail := by
  cases ts with
  | nil => exact absurd h.symm heof
  | cons t ts => exact ⟨t.span, by rw [← h]; rfl⟩

/-- **Skipping records nothing only if** the group is closed: by the first closer at which the
`depth` brackets that were open, and those opened since, are all closed. -/
theorem exists_of_skipGroup {budget depth : Nat} {ts : List Token} (hdepth : 0 < depth)
    (h : (skipGroup construct budget depth ts).diagnostics = []) :
    ∃ inside closing,
      ts = inside ++ ⟨.closing construct.shape, closing⟩
        :: (skipGroup construct budget depth ts).rest
      ∧ (∀ t ∈ inside, t.kind ≠ .eof) ∧ StaysOpen construct.shape depth inside
      ∧ depth + excess construct.shape inside = 1 ∧ inside.length < budget := by
  induction budget generalizing depth ts with
  | zero =>
    rw [skipGroup] at h
    split at h <;> simp at h
  | succ budget ih =>
    rw [skipGroup] at h ⊢
    by_cases heof : nextKind ts = .eof
    · rw [if_pos heof] at h
      simp at h
    obtain ⟨place, hts⟩ := eq_cons_of_nextKind rfl heof
    -- Every token but the closer that ends the group joins what the rest of it encloses.
    have step : ∀ deeper : Nat, 0 < deeper →
        (deeper : Int) = depth + (nextKind ts).weight construct.shape →
        (skipGroup construct budget deeper ts.tail).diagnostics = [] →
        ∃ inside closing,
          ts = inside ++ ⟨.closing construct.shape, closing⟩
            :: (skipGroup construct budget deeper ts.tail).rest
          ∧ (∀ t ∈ inside, t.kind ≠ .eof) ∧ StaysOpen construct.shape depth inside
          ∧ depth + excess construct.shape inside = 1 ∧ inside.length < budget + 1 := by
      intro deeper hdeeper hweight hd
      obtain ⟨inside, closing, htail, hno, hopen, hlevel, hlen⟩ := ih hdeeper hd
      refine ⟨⟨nextKind ts, place⟩ :: inside, closing, ?_, ?_, ?_, ?_, by simpa using hlen⟩
      · rw [List.cons_append, ← htail]
        exact hts
      · simpa [heof] using hno
      · rw [staysOpen_cons, ← hweight]
        exact ⟨by omega, hopen⟩
      · rw [excess_cons, ← Int.add_assoc, ← hweight]
        exact hlevel
    rw [if_neg heof] at h ⊢
    by_cases h₁ : nextKind ts = .opening construct.shape
    · rw [if_pos h₁] at h ⊢
      exact step (depth + 1) (by omega) (by rw [h₁, weight_opening]; rfl) h
    · rw [if_neg h₁] at h ⊢
      by_cases h₂ : nextKind ts = .closing construct.shape
      · rw [if_pos h₂] at h ⊢
        by_cases hlast : depth - 1 = 0
        · rw [if_pos hlast]
          refine ⟨[], place, ?_, by simp, by simpa using hdepth, by simp; omega, by simp⟩
          rw [List.nil_append, ← h₂]
          exact hts
        · rw [if_neg hlast] at h ⊢
          exact step (depth - 1) (by omega) (by rw [h₂, weight_closing]; omega) h
      · rw [if_neg h₂] at h ⊢
        exact step depth hdepth (by simp [Token.Kind.weight, h₁, h₂]) h

/-- A bracketed group that is skipped without a diagnostic is closed by the closer that balances
its opener. -/
theorem exists_group_of_skipGroup {budget : Nat} {ts : List Token}
    (hopening : nextKind ts = .opening construct.shape)
    (h : (skipGroup construct budget 0 ts).diagnostics = []) :
    ∃ opening inside closing,
      ts = ⟨.opening construct.shape, opening⟩ ::
        (inside ++ ⟨.closing construct.shape, closing⟩ :: (skipGroup construct budget 0 ts).rest)
      ∧ Balanced construct.shape inside ∧ inside.length + 2 ≤ budget := by
  obtain ⟨opening, hts⟩ := eq_cons_of_nextKind hopening (by simp)
  cases budget with
  | zero => simp [skipGroup, hopening] at h
  | succ budget =>
    rw [skipGroup, hopening, if_neg (by simp), if_pos rfl] at h ⊢
    obtain ⟨inside, closing, htail, hno, hopen, hlevel, hlen⟩ := exists_of_skipGroup (by omega) h
    refine ⟨opening, inside, closing, ?_, ⟨hno, ?_, by omega⟩, by omega⟩
    · rw [← htail]
      exact hts
    · simpa using hopen

/-- **What is skipped at once**: one token that opens nothing, or one bracketed group. -/
inductive SkippedAtOnce : List Token → Prop where
  /-- One token. -/
  | token {t : Token} (noEof : t.kind ≠ .eof) (opensNothing : ∀ shape, t.kind ≠ .opening shape) :
    SkippedAtOnce [t]
  /-- One group. -/
  | group {shape : Delimiter} {inside : List Token} (opening closing : Span)
    (balanced : Balanced shape inside) :
    SkippedAtOnce (⟨.opening shape, opening⟩ :: (inside ++ [⟨.closing shape, closing⟩]))

/-- Two brackets are two tokens more than what they enclose. -/
theorem length_enclosed (opening closing : Token) (inside : List Token) :
    (opening :: (inside ++ [closing])).length = inside.length + 2 := by
  rw [List.length_cons, List.length_append, List.length_singleton]

/-- What is skipped at once is not empty. -/
theorem SkippedAtOnce.nextToken_append {ts : List Token} (h : SkippedAtOnce ts)
    (rest : List Token) : nextToken (ts ++ rest) = nextToken ts := by
  cases h <;> rfl

/-- Skipping passes what is skipped at once, as long as it is no more tokens than there are
rounds. -/
theorem SkippedAtOnce.skipSubtree_append {ts : List Token} (h : SkippedAtOnce ts)
    (hlen : ts.length ≤ maxItems) (rest : List Token) :
    skipSubtree (ts ++ rest) = ⟨(), [], rest⟩ := by
  cases h with
  | @token t noEof opensNothing =>
    rw [List.singleton_append, skipSubtree, nextKind_cons]
    split
    · next shape hkind => exact absurd hkind (opensNothing shape)
    · rw [dropToken, nextKind_cons, if_neg noEof, List.tail_cons]
  | @group shape inside opening closing balanced =>
    rw [length_enclosed] at hlen
    rw [List.cons_append, List.append_assoc, skipSubtree, nextKind_cons]
    cases shape <;> exact skipGroup_group opening closing rest balanced hlen

/-- Skipping a group of more tokens than there are rounds records something. -/
theorem SkippedAtOnce.diagnostics_skipSubtree_ne_nil {ts : List Token} (h : SkippedAtOnce ts)
    (hlen : maxItems < ts.length) (rest : List Token) :
    (skipSubtree (ts ++ rest)).diagnostics ≠ [] := by
  cases h with
  | token noEof opensNothing => simp [maxItems] at hlen
  | @group shape inside opening closing balanced =>
    rw [length_enclosed] at hlen
    rw [List.cons_append, List.append_assoc, skipSubtree, nextKind_cons]
    cases shape <;> exact diagnostics_skipGroup_ne_nil opening closing rest balanced hlen

end Reading

end GraphQuery
