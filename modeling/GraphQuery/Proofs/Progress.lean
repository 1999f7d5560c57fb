import GraphQuery.Proofs.Trail

/-! # Progress

A definition passes at least one token, and therefore a document needs no more rounds than it has
tokens: **rounds that suffice do not show** in what is read (`definitions_eq_of_length_le`). -/

namespace GraphQuery

/-- What comes before the end of input is not empty. -/
theorem length_tail_lt {ts : List Token} (h : nextKind ts ≠ .eof) :
    ts.tail.length < ts.length := by
  cases ts with
  | nil => exact absurd rfl h
  | cons t ts => exact Nat.lt_succ_self _

/-- What is not the end of input is passed by passing one token. -/
theorem dropToken_eq_tail {ts : List Token} (h : nextKind ts ≠ .eof) : dropToken ts = ts.tail :=
  if_neg h

namespace Reading

variable {α : Type} {ts : List Token}

/-- What is left after the tokens behind the first one is left after all of them. -/
theorem suffix_of_tail {rest : List Token} (h : rest <:+ ts.tail) : rest <:+ ts :=
  h.trans (List.tail_suffix ts)

/-- A token that is not what was expected is passed. -/
theorem skipUnexpected_suffix_tail (expectation : Expectation) (value : α)
    (h : nextKind ts ≠ .eof) : (skipUnexpected expectation value ts).rest <:+ ts.tail := by
  show dropToken ts <:+ ts.tail
  rw [dropToken_eq_tail h]

variable [Rounds]

/-- **A definition passes at least one token**, whether it is well-formed or not, and however many
rounds are made. -/
theorem definition_suffix_tail (h : nextKind ts ≠ .eof) :
    (definition ts).rest <:+ ts.tail := by
  have hskip : (skipUnexpected .definition (none : Option Definition) ts).rest <:+ ts.tail :=
    skipUnexpected_suffix_tail _ _ h
  unfold definition
  split
  · next hopening =>
    show (rootSelection .query ts).rest <:+ ts.tail
    rw [rootSelection, if_pos hopening]
    exact (trail_selectionSet_succ (trail_selectionSet _) ts).suffix
  · split
    · next kind _ => exact (follows_operation kind ts.tail).suffix
    · split
      · exact (follows_typeDefinition ts.tail).suffix
      · exact hskip
  · exact hskip

/-- **Rounds that suffice do not show**: with at least as many rounds as tokens, reading
definitions gives the same whatever the number of rounds. -/
theorem definitions_eq_of_length_le {budget more : Nat} (hbudget : ts.length ≤ budget)
    (hmore : ts.length ≤ more) : definitions budget ts = definitions more ts := by
  induction budget generalizing more ts with
  | zero =>
    obtain rfl : ts = [] := List.length_eq_zero_iff.1 (Nat.le_zero.1 hbudget)
    cases more <;> rfl
  | succ budget ih =>
    by_cases heof : nextKind ts = .eof
    · cases more <;> rw [definitions, definitions, if_pos heof, if_pos heof]
    · have hlt := length_tail_lt heof
      obtain ⟨more, rfl⟩ := Nat.exists_eq_succ_of_ne_zero (show more ≠ 0 by omega)
      -- What is left after one definition is shorter by a token at least.
      have hrest : (definition ts).rest.length ≤ ts.tail.length :=
        (definition_suffix_tail heof).length_le
      have hsame : definitions budget (definition ts).rest
          = definitions more (definition ts).rest := ih (by omega) (by omega)
      rw [definitions, definitions, if_neg heof, if_neg heof, andThen, andThen]
      simp only [hsame]

end Reading

end GraphQuery
