import GraphQuery.Proofs.Acceptance
import Mathlib.Data.List.TakeWhile

/-! # Where a skipped group ends

Skipping counts the brackets of one shape, from a depth of zero with the opening bracket next or
from a depth of one just inside of it. A group **closes** at the first token with which the depth
is back at zero (`ClosesAt`). Until then it stays open, as the depth falls by one at most with each
token (`ClosesAt.staysOpen`, `staysOpen_of_not_closesAt`), and what stays open is passed token by
token. So skipping ends in one of three places: behind the token that closes the group, at the end
of input, or where its rounds run out. -/

namespace GraphQuery

variable {shape : Delimiter} {depth k : Nat} {ts : List Token}

/-! ## The tokens before the end of input -/

/-- The tokens before the end of input are among the first ones. -/
theorem length_beforeEof_le (ts : List Token) : (beforeEof ts).length ≤ ts.length :=
  (List.takeWhile_prefix _).length_le

/-- They are not the end of input. -/
theorem kind_ne_eof_of_mem_beforeEof {t : Token} (ht : t ∈ beforeEof ts) : t.kind ≠ .eof := by
  simpa [Token.isEof] using List.mem_takeWhile_imp ht

/-- After them comes the end of input. -/
theorem drop_beforeEof (ts : List Token) :
    ts = beforeEof ts ++ ts.drop (beforeEof ts).length
      ∧ nextKind (ts.drop (beforeEof ts).length) = .eof := by
  obtain ⟨rest, hts, hrest⟩ := exists_eq_beforeEof_append ts
  have hdrop : (beforeEof ts ++ rest).drop (beforeEof ts).length = rest := List.drop_left
  rw [← hts] at hdrop
  rw [hdrop]
  exact ⟨hts, hrest⟩

/-- As many of the first tokens as there are before the end of input are not the end of input. -/
theorem kind_ne_eof_of_mem_take {m : Nat} (hm : m ≤ (beforeEof ts).length) {t : Token}
    (ht : t ∈ ts.take m) : t.kind ≠ .eof := by
  rw [(drop_beforeEof ts).1, List.take_append_of_le_length hm] at ht
  exact kind_ne_eof_of_mem_beforeEof (List.mem_of_mem_take ht)

/-! ## The token that closes a group -/

/-- **A group closes with its `k`-th token**, from a depth on: the first one at which all brackets
of the shape are closed that were open before or were opened since, with no end of input before
it. -/
structure ClosesAt (shape : Delimiter) (depth : Nat) (ts : List Token) (k : Nat) : Prop where
  /-- It takes a token to close the group. -/
  pos : 0 < k
  /-- The input does not end before. -/
  le : k ≤ (beforeEof ts).length
  /-- The depth is back at zero. -/
  level : depth + excess shape (ts.take k) = 0
  /-- It was not before. -/
  first : ∀ j, 0 < j → j < k → depth + excess shape (ts.take j) ≠ 0

/-- A token closes one bracket at most. -/
theorem neg_one_le_weight (shape : Delimiter) (kind : Token.Kind) : -1 ≤ kind.weight shape := by
  unfold Token.Kind.weight
  split_ifs <;> omega

/-- One more token lowers the excess by one at most. -/
theorem excess_take_le (shape : Delimiter) (ts : List Token) (j : Nat) :
    excess shape (ts.take j) ≤ excess shape (ts.take (j + 1)) + 1 := by
  rw [List.take_add_one, excess_append]
  cases ts[j]? with
  | none => simp only [Option.toList_none, excess_nil]; omega
  | some t =>
    have hweight := neg_one_le_weight shape t.kind
    rw [Option.toList_some, excess_cons, excess_nil]
    omega

/-- **What is not closed stays open**: a depth that is not zero after any of the first tokens was
above zero all along. -/
theorem staysOpen_take {m : Nat} (hdepth : 0 < depth)
    (h : ∀ j, 0 < j → j ≤ m → depth + excess shape (ts.take j) ≠ 0) :
    StaysOpen shape depth (ts.take m) := by
  have hpos : ∀ j ≤ m, 0 < (depth : Int) + excess shape (ts.take j) := by
    intro j
    induction j with
    | zero =>
      intro _
      simpa using hdepth
    | succ j ih =>
      intro hj
      have hbefore := ih (by omega)
      have hstep := excess_take_le shape ts j
      have hne := h (j + 1) (by omega) hj
      omega
  intro before hbefore
  obtain ⟨hfirst, hle⟩ := List.prefix_take_iff.1 hbefore
  rw [List.prefix_iff_eq_take.1 hfirst]
  exact hpos _ hle

/-- Where a group does not close, the depth is not zero. -/
theorem level_ne_of_not_closesAt {m : Nat} (hm : m ≤ (beforeEof ts).length)
    (h : ∀ k ≤ m, ¬ ClosesAt shape depth ts k) :
    ∀ j, 0 < j → j ≤ m → depth + excess shape (ts.take j) ≠ 0 := by
  intro j
  -- The first token with which the depth were zero would close the group.
  induction j using Nat.strongRecOn with
  | ind j ih =>
    intro hpos hle hlevel
    exact h j hle ⟨hpos, Nat.le_trans hle hm, hlevel, fun i hi hij => ih i hij hi (by omega)⟩

/-- An opening bracket is before the end of input. -/
theorem length_beforeEof_opening (place : Span) (ts : List Token) :
    (beforeEof (⟨.opening shape, place⟩ :: ts)).length = (beforeEof ts).length + 1 := by
  simp [beforeEof, Token.isEof]

/-- **A group from its opening bracket on** closes one token later than from just inside. -/
theorem closesAt_opening_iff {place : Span} :
    ClosesAt shape 0 (⟨.opening shape, place⟩ :: ts) (k + 1) ↔ ClosesAt shape 1 ts k := by
  have hlevel : ∀ j, ((0 : Nat) : Int) + excess shape ((⟨.opening shape, place⟩ :: ts).take (j + 1))
      = ((1 : Nat) : Int) + excess shape (ts.take j) := by
    intro j
    rw [List.take_succ_cons, excess_cons, weight_opening]
    omega
  constructor
  · rintro ⟨-, hle, hzero, hfirst⟩
    rw [hlevel] at hzero
    refine ⟨?_, ?_, hzero, fun j hj hjk => ?_⟩
    · rcases Nat.eq_zero_or_pos k with rfl | hpos
      · simp at hzero
      · exact hpos
    · rw [length_beforeEof_opening] at hle
      omega
    · rw [← hlevel]
      exact hfirst (j + 1) (by omega) (by omega)
  · rintro ⟨hpos, hle, hzero, hfirst⟩
    refine ⟨by omega, ?_, by rw [hlevel, hzero], fun j hj hjk => ?_⟩
    · rw [length_beforeEof_opening]
      omega
    · obtain ⟨i, rfl⟩ := Nat.exists_eq_add_of_lt hj
      rw [Nat.zero_add, hlevel]
      rcases Nat.eq_zero_or_pos i with rfl | hi
      · simp
      · exact hfirst i hi (by omega)

/-- Tokens that are no brackets of the shape close nothing. -/
theorem not_closesAt_of_weight (hdepth : 0 < depth) (h : ∀ t ∈ ts, t.kind.weight shape = 0) :
    ¬ ClosesAt shape depth ts k := by
  have hzero : ∀ us : List Token, (∀ t ∈ us, t.kind.weight shape = 0) → excess shape us = 0 := by
    intro us hus
    induction us with
    | nil => rfl
    | cons t us ih =>
      rw [excess_cons, hus t List.mem_cons_self, ih fun s hs => hus s (List.mem_cons_of_mem t hs)]
      rfl
  intro hclose
  have hlevel := hclose.level
  rw [hzero _ fun t ht => h t (List.mem_of_mem_take ht)] at hlevel
  omega

/-! ## Where skipping ends -/

namespace Reading

variable {construct : Construct} {budget : Nat}

/-- **Skipping passes the first tokens** as long as the group stays open, one in each round. -/
theorem skipGroup_drop {j : Nat} (hj : j ≤ budget) (hlen : j ≤ (beforeEof ts).length)
    (hopen : StaysOpen construct.shape depth (ts.take j)) :
    skipGroup construct budget depth ts
      = skipGroup construct (budget - j) (depth + excess construct.shape (ts.take j)).toNat
          (ts.drop j) := by
  obtain ⟨spare, rfl⟩ := Nat.exists_eq_add_of_le hj
  have hlength : (ts.take j).length = j :=
    List.length_take_of_le (Nat.le_trans hlen (length_beforeEof_le ts))
  have hskip : skipGroup construct ((ts.take j).length + spare) depth (ts.take j ++ ts.drop j)
      = _ := skipGroup_append (ts.drop j) (fun t ht => kind_ne_eof_of_mem_take hlen ht) hopen
  rw [hlength, List.take_append_drop] at hskip
  rw [hskip, Nat.add_sub_cancel_left]

/-- Skipping ends behind the token that closes the group. -/
theorem skipGroup_of_closesAt (hdepth : 0 < depth) (h : ClosesAt construct.shape depth ts k)
    (hk : k ≤ budget) : skipGroup construct budget depth ts = ⟨(), [], ts.drop k⟩ := by
  obtain ⟨j, rfl⟩ := Nat.exists_eq_add_one.2 h.pos
  have hj : j < ts.length := Nat.le_trans h.le (length_beforeEof_le ts)
  have hopen : StaysOpen construct.shape depth (ts.take j) :=
    staysOpen_take hdepth fun i hi hij => h.first i hi (by omega)
  have hlast := hopen _ (List.prefix_refl _)
  -- The depth falls from one to zero, and only a closing bracket does that.
  have hlevel := h.level
  rw [List.take_add_one, List.getElem?_eq_getElem hj, Option.toList_some, excess_append,
    excess_cons, excess_nil] at hlevel
  have hweight := neg_one_le_weight construct.shape ts[j].kind
  have hkind : ts[j].kind = .closing construct.shape := by
    by_contra hne
    have hnonneg : 0 ≤ ts[j].kind.weight construct.shape := by
      unfold Token.Kind.weight
      split_ifs <;> omega
    omega
  obtain ⟨spare, hspare⟩ := Nat.exists_eq_add_of_lt (show j < budget by omega)
  rw [skipGroup_drop (Nat.le_of_lt hk) (Nat.le_of_lt h.le) hopen, List.drop_eq_getElem_cons hj,
    show budget - j = spare + 1 by omega, skipGroup, nextKind_cons, hkind, if_neg (by simp),
    if_neg (by simp), if_pos rfl, List.tail_cons, if_pos (by omega)]

/-- Skipping ends at the end of input if the group does not close. -/
theorem skipGroup_of_eof (hopen : StaysOpen construct.shape depth (ts.take (beforeEof ts).length))
    (hlen : (beforeEof ts).length ≤ budget) :
    skipGroup construct budget depth ts
      = ⟨(), [.unclosed construct (nextToken (ts.drop (beforeEof ts).length))],
          ts.drop (beforeEof ts).length⟩ := by
  have hstop : ∀ budget depth rest, nextKind rest = .eof →
      skipGroup construct budget depth rest
        = ⟨(), [.unclosed construct (nextToken rest)], rest⟩ := by
    intro budget depth rest hrest
    cases budget <;> rw [skipGroup, if_pos hrest]
  rw [skipGroup_drop hlen (Nat.le_refl _) hopen, hstop _ _ _ (drop_beforeEof ts).2]

/-- Skipping ends after its rounds if the group does not close within them. -/
theorem skipGroup_of_rounds (hopen : StaysOpen construct.shape depth (ts.take budget))
    (hlen : budget < (beforeEof ts).length) :
    skipGroup construct budget depth ts
      = ⟨(), [.tooManyItems construct.describe (nextToken (ts.drop budget))], ts.drop budget⟩ := by
  have hbudget : budget < ts.length := Nat.lt_of_lt_of_le hlen (length_beforeEof_le ts)
  have hmore : nextKind (ts.drop budget) ≠ .eof := by
    rw [List.drop_eq_getElem_cons hbudget, nextKind_cons]
    exact kind_ne_eof_of_mem_take hlen (List.mem_take_iff_getElem.2 ⟨budget, by omega, rfl⟩)
  rw [skipGroup_drop (Nat.le_refl _) (Nat.le_of_lt hlen) hopen, Nat.sub_self, skipGroup,
    if_neg hmore]

/-- **Skipping ends where the group does**, with so many rounds. -/
structure SkipsGroup (construct : Construct) (budget depth : Nat) (ts : List Token) : Prop where
  /-- If the group closes within the rounds, just the tokens up to the one that closes it are
  passed, and nothing is reported. -/
  closed : ∀ k, ClosesAt construct.shape depth ts k → k ≤ budget →
    skipGroup construct budget depth ts = ⟨(), [], ts.drop k⟩
  /-- If the input ends before, within the rounds, just the tokens before its end are passed, and
  there it is reported, once, that the group is not closed. -/
  unclosed : (∀ k, ¬ ClosesAt construct.shape depth ts k) → (beforeEof ts).length ≤ budget →
    nextKind (ts.drop (beforeEof ts).length) = .eof
      ∧ skipGroup construct budget depth ts
        = ⟨(), [.unclosed construct (nextToken (ts.drop (beforeEof ts).length))],
            ts.drop (beforeEof ts).length⟩
  /-- Otherwise as many tokens are passed as there are rounds, and at the next one it is reported,
  once, that there are too many. -/
  cutShort : (¬ ∃ k ≤ budget, ClosesAt construct.shape depth ts k) →
    ¬ ((∀ k, ¬ ClosesAt construct.shape depth ts k) ∧ (beforeEof ts).length ≤ budget) →
      budget < (beforeEof ts).length
        ∧ skipGroup construct budget depth ts
          = ⟨(), [.tooManyItems construct.describe (nextToken (ts.drop budget))], ts.drop budget⟩

/-- Skipping ends where the group does, from inside of it. -/
theorem skipsGroup_of_pos (construct : Construct) (budget : Nat) (hdepth : 0 < depth)
    (ts : List Token) : SkipsGroup construct budget depth ts where
  closed k h hk := skipGroup_of_closesAt hdepth h hk
  unclosed hnone hlen := by
    refine ⟨(drop_beforeEof ts).2, skipGroup_of_eof (staysOpen_take hdepth ?_) hlen⟩
    exact level_ne_of_not_closesAt (Nat.le_refl _) fun k _ => hnone k
  cutShort hnone hmore := by
    -- A group that closes, though not within the rounds, has more tokens than there are rounds.
    have hlen : budget < (beforeEof ts).length := by
      by_contra hle
      refine hmore ⟨fun k h => hnone ⟨k, ?_, h⟩, by omega⟩
      have hk := h.le
      omega
    refine ⟨hlen, skipGroup_of_rounds (staysOpen_take hdepth ?_) hlen⟩
    exact level_ne_of_not_closesAt (Nat.le_of_lt hlen) fun k hk h => hnone ⟨k, hk, h⟩

/-- The opening bracket of a group takes one round. -/
theorem skipGroup_opening (construct : Construct) (budget : Nat) (place : Span) (ts : List Token) :
    skipGroup construct (budget + 1) 0 (⟨.opening construct.shape, place⟩ :: ts)
      = skipGroup construct budget 1 ts := by
  rw [skipGroup, nextKind_cons, if_neg (by simp), if_pos rfl]
  rfl

/-- From its opening bracket on, a group takes one more round than from just inside. -/
theorem SkipsGroup.opening {budget : Nat} (place : Span)
    (h : SkipsGroup construct budget 1 ts) :
    SkipsGroup construct (budget + 1) 0 (⟨.opening construct.shape, place⟩ :: ts) where
  closed k hclose hk := by
    obtain ⟨j, rfl⟩ := Nat.exists_eq_add_one.2 hclose.pos
    rw [skipGroup_opening, h.closed j (closesAt_opening_iff.1 hclose) (by omega)]
    rfl
  unclosed hnone hlen := by
    rw [length_beforeEof_opening] at hlen ⊢
    rw [skipGroup_opening]
    exact h.unclosed (fun k hclose => hnone (k + 1) (closesAt_opening_iff.2 hclose)) (by omega)
  cutShort hnone hmore := by
    rw [length_beforeEof_opening] at hmore ⊢
    rw [skipGroup_opening]
    have hinside : ¬ ∃ k ≤ budget, ClosesAt construct.shape 1 ts k := by
      rintro ⟨k, hk, hclose⟩
      exact hnone ⟨k + 1, by omega, closesAt_opening_iff.2 hclose⟩
    have hlonger :
        ¬ ((∀ k, ¬ ClosesAt construct.shape 1 ts k) ∧ (beforeEof ts).length ≤ budget) := by
      rintro ⟨hno, hlen⟩
      refine hmore ⟨fun k hclose => ?_, by omega⟩
      obtain ⟨j, rfl⟩ := Nat.exists_eq_add_one.2 hclose.pos
      exact hno j (closesAt_opening_iff.1 hclose)
    obtain ⟨hlen, hcut⟩ := h.cutShort hinside hlonger
    exact ⟨by omega, hcut⟩

/-- **Skipping a group ends where the group does**, within the limit of rounds: from its opening
bracket on, or from just inside of it. -/
theorem skipsGroup_of_start (construct : Construct) {depth : Nat} {ts : List Token}
    (hstart : depth = 0 ∧ nextKind ts = .opening construct.shape ∨ depth = 1) :
    SkipsGroup construct maxItems depth ts := by
  rcases hstart with ⟨rfl, hopening⟩ | rfl
  · obtain ⟨place, hts⟩ := eq_cons_of_nextKind hopening (by simp)
    rw [hts, show maxItems = 9999 + 1 from rfl]
    exact (skipsGroup_of_pos construct 9999 Nat.one_pos _).opening place
  · exact skipsGroup_of_pos construct maxItems Nat.one_pos ts

/-- The tokens `( [ ( ) } ) :` without their places. -/
def nestedGroup : List Token :=
  [.opening .paren, .opening .bracket, .opening .paren, .closing .paren, .closing .brace,
    .closing .paren, .colon].map fun kind => ⟨kind, ⟨0, 0⟩⟩

/-- A group with another one and with brackets of other shapes in it is passed from its opening
bracket on; and from just inside of a group, closing brackets of another shape are passed up to the
end of input, or up to the limit. -/
theorem skipsGroup_nestedGroup :
    skipGroup .fieldArguments maxItems 0 nestedGroup = ⟨(), [], nestedGroup.drop 6⟩
      ∧ skipGroup .objectValue maxItems 1 (List.replicate 10000 ⟨.closing .paren, ⟨0, 0⟩⟩)
        = ⟨(), [.unclosed .objectValue Token.unplacedEof], []⟩
      ∧ skipGroup .objectValue maxItems 1 (List.replicate 10001 ⟨.closing .paren, ⟨0, 0⟩⟩)
        = ⟨(), [.tooManyItems "object value" ⟨.closing .paren, ⟨0, 0⟩⟩],
            [⟨.closing .paren, ⟨0, 0⟩⟩]⟩ := by
  have hfirst : ∀ j < 6, 0 < j →
      ((0 : Nat) : Int) + excess .paren (nestedGroup.take j) ≠ 0 := by decide
  have hclose : ClosesAt .paren 0 nestedGroup 6 :=
    ⟨by decide, by decide, by decide, fun j hpos hlt => hfirst j hlt hpos⟩
  have hother : ∀ n k, ¬ ClosesAt .brace 1 (List.replicate n ⟨.closing .paren, ⟨0, 0⟩⟩) k :=
    fun n k => not_closesAt_of_weight Nat.one_pos fun t ht => by
      rw [List.eq_of_mem_replicate ht]
      rfl
  have hbefore : ∀ n, beforeEof (List.replicate n ⟨.closing .paren, ⟨0, 0⟩⟩)
      = List.replicate n ⟨.closing .paren, ⟨0, 0⟩⟩ := by
    intro n
    rw [beforeEof, List.takeWhile_replicate]
    rfl
  refine ⟨(skipsGroup_of_start .fieldArguments (.inl ⟨rfl, rfl⟩)).closed 6 hclose (by decide),
    ?_, ?_⟩
  · have hlen : (beforeEof (List.replicate 10000 ⟨.closing .paren, ⟨0, 0⟩⟩)).length ≤ maxItems := by
      rw [hbefore, List.length_replicate]
      exact Nat.le_refl _
    obtain ⟨-, hskip⟩ :=
      (skipsGroup_of_start .objectValue (.inr rfl)).unclosed (hother 10000) hlen
    rw [hbefore, List.length_replicate, List.drop_replicate] at hskip
    exact hskip
  · have hopen :
        ¬ ∃ k ≤ maxItems, ClosesAt .brace 1 (List.replicate 10001 ⟨.closing .paren, ⟨0, 0⟩⟩) k := by
      rintro ⟨k, -, h⟩
      exact hother 10001 k h
    have hlen :
        ¬ (beforeEof (List.replicate 10001 ⟨.closing .paren, ⟨0, 0⟩⟩)).length ≤ maxItems := by
      rw [hbefore, List.length_replicate]
      decide
    obtain ⟨-, hskip⟩ :=
      (skipsGroup_of_start .objectValue (.inr rfl)).cutShort hopen fun h => hlen h.2
    rw [List.drop_replicate] at hskip
    exact hskip

end Reading

end GraphQuery
