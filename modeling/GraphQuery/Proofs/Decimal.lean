import GraphQuery.Text.Integer
import Mathlib.Data.Nat.Digits.Defs
import Mathlib.Tactic.Ring

/-! # Integers in decimal notation

Reading an integer takes in its digits one by one, and after each digit asks whether the value still
fits. With every digit the value moves away from zero or stays where it is, so that the first
question that fails is answered as the last one would be: digits are read exactly if the number that
they stand for is in range, and are out of range otherwise, however many there are and whatever
zeros they start with (`Integer.takeDigits_digits`). A text is read exactly if it denotes an integer
in range (`Integer.parse_eq_ok_iff`). -/

namespace GraphQuery.Integer

/-! ## What digits stand for -/

/-- The value of a decimal digit. -/
def digitValue (c : Char) : Nat := c.toNat - '0'.toNat

/-- **The number that digits stand for**, in positional notation to the base ten. -/
def decimal (cs : List Char) : Nat := Nat.ofDigits 10 (cs.reverse.map digitValue)

@[simp] theorem decimal_nil : decimal [] = 0 := rfl

/-- A digit stands for as many units of its position as it has the value of. -/
theorem decimal_cons (c : Char) (cs : List Char) :
    decimal (c :: cs) = digitValue c * 10 ^ cs.length + decimal cs := by
  rw [decimal, List.reverse_cons, List.map_append, Nat.ofDigits_append, List.length_map,
    List.length_reverse, List.map_singleton, Nat.ofDigits_singleton, decimal]
  ring

/-- **What the text of an integer denotes**: digits, of which there is one at least, with a sign
before them or not. -/
inductive Denotes : List Char → Int → Prop where
  /-- Digits alone. -/
  | bare {cs : List Char} (nonempty : cs ≠ []) (digits : ∀ c ∈ cs, c.isDigit) :
    Denotes cs (decimal cs)
  /-- Digits after a plus sign. -/
  | plus {cs : List Char} (nonempty : cs ≠ []) (digits : ∀ c ∈ cs, c.isDigit) :
    Denotes ('+' :: cs) (decimal cs)
  /-- Digits after a minus sign. -/
  | minus {cs : List Char} (nonempty : cs ≠ []) (digits : ∀ c ∈ cs, c.isDigit) :
    Denotes ('-' :: cs) (-(decimal cs))

/-! ## Taking in digits -/

/-- A number with its sign. -/
def signed (negative : Bool) (n : Nat) : Int := if negative then -n else n

/-- The largest number that fits with the sign. -/
def bound (negative : Bool) : Nat := if negative then 2 ^ 63 else 2 ^ 63 - 1

/-- The fault of a number that does not fit. -/
def overflow (negative : Bool) : IntegerFault := if negative then .tooSmall else .tooLarge

@[simp] theorem signed_false (n : Nat) : signed false n = n := rfl

@[simp] theorem signed_true (n : Nat) : signed true n = -n := rfl

@[simp] theorem bound_false : bound false = 2 ^ 63 - 1 := rfl

@[simp] theorem bound_true : bound true = 2 ^ 63 := rfl

variable {negative : Bool} {m n : Nat} {c : Char} {cs : List Char} {v : Int}

/-- A digit is taken in if the value fits with it. -/
theorem takeDigits_cons (negative : Bool) (m : Nat) (hc : c.isDigit) (cs : List Char) :
    takeDigits negative (signed negative m) (c :: cs)
      = if 10 * m + digitValue c ≤ bound negative then
          takeDigits negative (signed negative (10 * m + digitValue c)) cs
        else .error (overflow negative) := by
  have hdigit : digit? c = some (digitValue c) := if_pos hc
  rw [takeDigits, hdigit]
  cases negative with
  | false =>
    have hfits : 10 * m + digitValue c ≤ bound false
        ↔ ¬ maxValue < 10 * (m : Int) + digitValue c := by
      rw [bound_false, maxValue]
      omega
    simp only [signed_false, overflow, hfits, ite_not]
    rfl
  | true =>
    have hfits : 10 * m + digitValue c ≤ bound true
        ↔ ¬ 10 * -(m : Int) - digitValue c < minValue := by
      rw [bound_true, minValue]
      omega
    have hvalue : 10 * -(m : Int) - digitValue c = -((10 * m + digitValue c : Nat) : Int) := by
      omega
    simp only [signed_true, overflow, hfits, ite_not, if_true, hvalue]

/-- **Digits are taken in** if the value fits with all of them. -/
theorem takeDigits_digits (hcs : ∀ c ∈ cs, c.isDigit) (hm : m ≤ bound negative) :
    takeDigits negative (signed negative m) cs
      = if m * 10 ^ cs.length + decimal cs ≤ bound negative then
          .ok (signed negative (m * 10 ^ cs.length + decimal cs))
        else .error (overflow negative) := by
  induction cs generalizing m with
  | nil => simp [takeDigits, hm]
  | cons c cs ih =>
    obtain ⟨hc, hcs⟩ := List.forall_mem_cons.1 hcs
    have hsum : m * 10 ^ (c :: cs).length + decimal (c :: cs)
        = (10 * m + digitValue c) * 10 ^ cs.length + decimal cs := by
      rw [decimal_cons, List.length_cons]
      ring
    rw [takeDigits_cons negative m hc, hsum]
    by_cases hfits : 10 * m + digitValue c ≤ bound negative
    · rw [if_pos hfits, ih hcs hfits]
    · -- What does not fit by now does not fit with more digits either.
      have hgrows : 10 * m + digitValue c ≤ (10 * m + digitValue c) * 10 ^ cs.length :=
        Nat.le_mul_of_pos_right _ (Nat.pow_pos (by decide))
      rw [if_neg hfits, if_neg (by omega)]

/-- Nothing but digits is taken in. -/
theorem isDigit_of_takeDigits {w : Int} (h : takeDigits negative w cs = .ok v) :
    ∀ c ∈ cs, c.isDigit := by
  induction cs generalizing w with
  | nil => simp
  | cons c cs ih =>
    rw [takeDigits] at h
    split at h
    · cases h
    · next d hd =>
      have hc : c.isDigit := by
        by_contra hc
        simp [digit?, hc] at hd
      refine List.forall_mem_cons.2 ⟨hc, ?_⟩
      split at h <;> split at h <;> first | exact ih h | cases h

/-- Some digits are taken in if the number that they stand for fits. -/
theorem takeSomeDigits_digits (hne : cs ≠ []) (hcs : ∀ c ∈ cs, c.isDigit) :
    takeSomeDigits negative cs
      = if decimal cs ≤ bound negative then .ok (signed negative (decimal cs))
        else .error (overflow negative) := by
  have hzero : signed negative 0 = 0 := by cases negative <;> rfl
  have hread := takeDigits_digits (m := 0) hcs (Nat.zero_le (bound negative))
  rw [Nat.zero_mul, Nat.zero_add, hzero] at hread
  rw [takeSomeDigits, if_neg hne, hread]

/-- Some digits are taken in exactly if they are digits whose number fits. -/
theorem takeSomeDigits_eq_ok_iff :
    takeSomeDigits negative cs = .ok v
      ↔ (cs ≠ [] ∧ ∀ c ∈ cs, c.isDigit) ∧ decimal cs ≤ bound negative
        ∧ signed negative (decimal cs) = v := by
  constructor
  · intro h
    have hne : cs ≠ [] := by
      rintro rfl
      cases h
    have hcs : ∀ c ∈ cs, c.isDigit := by
      rw [takeSomeDigits, if_neg hne] at h
      exact isDigit_of_takeDigits h
    rw [takeSomeDigits_digits hne hcs] at h
    split at h
    · next hfits => exact ⟨⟨hne, hcs⟩, hfits, Except.ok.inj h⟩
    · cases h
  · rintro ⟨⟨hne, hcs⟩, hfits, rfl⟩
    rw [takeSomeDigits_digits hne hcs, if_pos hfits]

/-! ## Reading a text -/

/-- Where digits are looked for in a text: after a sign, or from its start on. -/
theorem parseValue_cases (cs : List Char) :
    parseValue cs = .error .empty ∧ cs = []
      ∨ (∃ ds, cs = '+' :: ds ∧ parseValue cs = takeSomeDigits false ds)
      ∨ (∃ ds, cs = '-' :: ds ∧ parseValue cs = takeSomeDigits true ds)
      ∨ parseValue cs = takeSomeDigits false cs := by
  unfold parseValue
  split
  · exact .inl ⟨rfl, rfl⟩
  · next ds => exact .inr (.inl ⟨ds, rfl, rfl⟩)
  · next ds => exact .inr (.inr (.inl ⟨ds, rfl, rfl⟩))
  · next hne _ _ => exact .inr (.inr (.inr (if_neg hne).symm))

/-- Digits are not looked for after a sign. -/
theorem parseValue_digits (hne : cs ≠ []) (hcs : ∀ c ∈ cs, c.isDigit) :
    parseValue cs = takeSomeDigits false cs := by
  rcases parseValue_cases cs with ⟨-, hnil⟩ | ⟨ds, rfl, -⟩ | ⟨ds, rfl, -⟩ | h
  · exact absurd hnil hne
  · exact absurd (hcs '+' List.mem_cons_self) (by decide)
  · exact absurd (hcs '-' List.mem_cons_self) (by decide)
  · exact h

/-- **A text has a value** exactly if it denotes it, and it is in range. -/
theorem parseValue_eq_ok_iff :
    parseValue cs = .ok v ↔ Denotes cs v ∧ -2 ^ 63 ≤ v ∧ v ≤ 2 ^ 63 - 1 := by
  constructor
  · intro h
    rcases parseValue_cases cs with ⟨hread, -⟩ | ⟨ds, rfl, hread⟩ | ⟨ds, rfl, hread⟩ | hread
    · rw [hread] at h
      cases h
    all_goals
      rw [hread, takeSomeDigits_eq_ok_iff] at h
      obtain ⟨⟨hne, hcs⟩, hfits, rfl⟩ := h
    · rw [bound_false] at hfits
      exact ⟨.plus hne hcs, by rw [signed_false]; omega, by rw [signed_false]; omega⟩
    · rw [bound_true] at hfits
      exact ⟨.minus hne hcs, by rw [signed_true]; omega, by rw [signed_true]; omega⟩
    · rw [bound_false] at hfits
      exact ⟨.bare hne hcs, by rw [signed_false]; omega, by rw [signed_false]; omega⟩
  · rintro ⟨hdenotes, hmin, hmax⟩
    cases hdenotes with
    | bare hne hcs =>
      rw [parseValue_digits hne hcs, takeSomeDigits_eq_ok_iff, bound_false]
      exact ⟨⟨hne, hcs⟩, by omega, rfl⟩
    | @plus ds hne hcs =>
      show takeSomeDigits false ds = _
      rw [takeSomeDigits_eq_ok_iff, bound_false]
      exact ⟨⟨hne, hcs⟩, by omega, rfl⟩
    | @minus ds hne hcs =>
      show takeSomeDigits true ds = _
      rw [takeSomeDigits_eq_ok_iff, bound_true]
      exact ⟨⟨hne, hcs⟩, by omega, rfl⟩

/-- **A text is read as an integer** exactly if it denotes it. -/
theorem parse_eq_ok_iff {text : String} {value : Int64} :
    parse text = .ok value ↔ Denotes text.toList value.toInt := by
  constructor
  · intro h
    rw [parse] at h
    cases hread : parseValue text.toList with
    | error fault =>
      rw [hread] at h
      cases h
    | ok v =>
      rw [hread] at h
      obtain ⟨hdenotes, hmin, hmax⟩ := parseValue_eq_ok_iff.1 hread
      obtain rfl : Int64.ofInt v = value := Except.ok.inj h
      rwa [Int64.toInt_ofInt_of_le hmin (by omega)]
  · intro h
    have hmin := value.le_toInt
    have hmax := value.toInt_lt
    rw [parse, parseValue_eq_ok_iff.2 ⟨h, hmin, by omega⟩]
    exact congrArg Except.ok (Int64.ofInt_toInt value)

/-- What a text denotes is read if it is in range. -/
theorem Denotes.exists_parse {text : String} {n : Int} (h : Denotes text.toList n)
    (hmin : -2 ^ 63 ≤ n) (hmax : n ≤ 2 ^ 63 - 1) :
    ∃ value : Int64, value.toInt = n ∧ parse text = .ok value := by
  have hvalue : (Int64.ofInt n).toInt = n := Int64.toInt_ofInt_of_le hmin (by omega)
  exact ⟨.ofInt n, hvalue, parse_eq_ok_iff.2 (by rwa [hvalue])⟩

/-- A text is read exactly if it denotes an integer in range. -/
theorem exists_parse_iff {text : String} :
    (∃ value, parse text = .ok value)
      ↔ ∃ n, Denotes text.toList n ∧ -2 ^ 63 ≤ n ∧ n ≤ 2 ^ 63 - 1 := by
  constructor
  · rintro ⟨value, hread⟩
    have hmax := value.toInt_lt
    exact ⟨value.toInt, parse_eq_ok_iff.1 hread, value.le_toInt, by omega⟩
  · rintro ⟨n, hdenotes, hmin, hmax⟩
    obtain ⟨value, -, hread⟩ := hdenotes.exists_parse hmin hmax
    exact ⟨value, hread⟩

/-- **Digits alone are read** if the number that they stand for is in range, and are too large
otherwise. -/
theorem parse_digits {text : String} (hne : text.toList ≠ [])
    (hdigits : ∀ c ∈ text.toList, c.isDigit) :
    parse text
      = if decimal text.toList ≤ 2 ^ 63 - 1 then .ok (Int64.ofInt (decimal text.toList))
        else .error .tooLarge := by
  rw [parse, parseValue_digits hne hdigits, takeSomeDigits_digits hne hdigits, bound_false]
  split <;> rfl

/-- Leading zeros do not count, and the smallest integer is read where the largest one is not. -/
example :
    parse "0009223372036854775807" = .ok 9223372036854775807
      ∧ parse "-9223372036854775808" = .ok (-9223372036854775808)
      ∧ parse "9223372036854775808" = .error .tooLarge := by decide +kernel

end GraphQuery.Integer
