import GraphQuery.Reading.Recovery

/-! # Rounds

What one round of reading a construct does, by what is next: a round ends the construct, passes a
comma, or reads an item. -/

namespace GraphQuery

/-- No construct ends at a comma. -/
@[simp] theorem Construct.endsAt_comma (construct : Construct) :
    construct.endsAt .comma = false := by
  cases construct <;> rfl

/-- No construct ends at a name. -/
@[simp] theorem Construct.endsAt_name (construct : Construct) (text : String) :
    construct.endsAt (.name text) = false := by
  cases construct <;> rfl

/-- Every construct ends at its closing bracket. -/
@[simp] theorem Construct.endsAt_closing (construct : Construct) :
    construct.endsAt (.closing construct.shape) = true := by
  simp [endsAt]

namespace Reading

variable {α : Type} {construct : Construct} {item : List Token → Reading (Item α)} {budget : Nat}
  {ts rest : List Token} {diagnostics : List Diagnostic}

/-- Without rounds left the construct is cut short. -/
theorem items_zero (ts : List Token) :
    items construct item 0 ts
      = ⟨⟨[], none⟩, [.tooManyItems construct.describe (nextToken ts)], ts⟩ := rfl

/-- A round at the end of the construct looks for its closing bracket. -/
theorem items_end (h : construct.endsAt (nextKind ts) = true) :
    items construct item (budget + 1) ts = (close construct ts).map fun _ => ⟨[], none⟩ := by
  rw [items, if_pos h]

/-- The round of the closing bracket. -/
theorem items_closing (closing : Span) (rest : List Token) :
    items construct item (budget + 1) (⟨.closing construct.shape, closing⟩ :: rest)
      = ⟨⟨[], none⟩, [], rest⟩ := by
  rw [items_end (by simp)]
  simp [close, map]

/-- The round of a comma. -/
theorem items_comma (place : Span) (ts : List Token) :
    items construct item (budget + 1) (⟨.comma, place⟩ :: ts) = items construct item budget ts := by
  rw [items, nextKind_cons, if_neg (by simp), if_pos rfl, List.tail_cons]

/-- The round of an item. -/
theorem items_item (hends : construct.endsAt (nextKind ts) = false)
    (hcomma : nextKind ts ≠ .comma) :
    items construct item (budget + 1) ts = (item ts).andThen fun
      | .kept value, ts =>
        (items construct item budget ts).map fun more => { more with kept := value :: more.kept }
      | .skipped, ts => items construct item budget ts
      | .spoilt remark, ts => ⟨⟨[], some remark⟩, [], ts⟩ := by
  rw [items, if_neg (by simp [hends])]
  exact if_neg hcomma

/-- The round of an item that is kept. -/
theorem items_kept {value : α} (hends : construct.endsAt (nextKind ts) = false)
    (hcomma : nextKind ts ≠ .comma) (h : item ts = ⟨.kept value, diagnostics, rest⟩) :
    items construct item (budget + 1) ts
      = ⟨{ (items construct item budget rest).value with
            kept := value :: (items construct item budget rest).value.kept },
          diagnostics ++ (items construct item budget rest).diagnostics,
          (items construct item budget rest).rest⟩ := by
  rw [items_item hends hcomma, h]
  rfl

end Reading

end GraphQuery
