import GraphQuery.Json.Reader
import GraphQuery.Json.Writer

/-! # JSON texts are read back

What `Json.compact` writes, `Json.parse?` reads back as it was (`Json.parse?_compact`): member by
member in the order written, repeated names too, and string by string down to the escapes. Left out
is what the text does not tell: floats and what has no value. The rest is `Json.Readable`.

A value in a text is followed by a comma, by a closing bracket or by nothing (`FollowsValue`), which
is what tells a reader that a number has come to its end. -/

namespace GraphQuery.Json

/-! ## Integers -/

/-- What may stand after a value: a comma, a closing bracket, or nothing. -/
def FollowsValue (rest : List Char) : Prop :=
  ∀ c, rest.head? = some c → c = ',' ∨ c = ']' ∨ c = '}'

theorem followsValue_nil : FollowsValue [] := by
  intro c hc
  cases hc

theorem followsValue_cons {c : Char} (h : c = ',' ∨ c = ']' ∨ c = '}') (rest : List Char) :
    FollowsValue (c :: rest) := by
  intro d hd
  obtain rfl := Option.some.inj hd
  exact h

/-- No digit follows a value. -/
theorem FollowsValue.not_isDigit {rest : List Char} (h : FollowsValue rest) :
    rest.head?.any Char.isDigit = false := by
  cases rest with
  | nil => rfl
  | cons c rest => rcases h c rfl with rfl | rfl | rfl <;> rfl

theorem digit?_digitChar {d : Nat} (h : d < 10) : digit? (Nat.digitChar d) = some d := by
  have hall : ∀ d < 10, digit? (Nat.digitChar d) = some d := by decide
  exact hall d h

/-- A number is written with a digit at least. -/
theorem exists_natDigits_eq_cons (n : Nat) : ∃ c cs, natDigits n = c :: cs ∧ c.isDigit := by
  cases hdigits : natDigits n with
  | nil => exact absurd hdigits Nat.toDigits_ne_nil
  | cons c cs =>
    have hmem : c ∈ natDigits n := by simp [hdigits]
    exact ⟨c, cs, rfl, Nat.isDigit_of_mem_toDigits (by decide) (by decide) hmem⟩

theorem ne_of_isDigit {c d : Char} (hc : c.isDigit) (hd : d.isDigit = false) : c ≠ d := by
  rintro rfl
  rw [hc] at hd
  cases hd

/-- The digits of a number are those of its tenth and one more. -/
theorem natDigits_of_le {n : Nat} (h : 10 ≤ n) :
    natDigits n = natDigits (n / 10) ++ [Nat.digitChar (n % 10)] :=
  Nat.toDigits_of_base_le (by decide) h

theorem natDigits_of_lt {n : Nat} (h : n < 10) : natDigits n = [Nat.digitChar n] :=
  Nat.toDigits_of_lt_base h

/-- Only zero is written with a leading zero. -/
theorem head?_natDigits {n : Nat} (h : (natDigits n).head? = some '0') : n = 0 := by
  induction n using Nat.strongRecOn with
  | ind n ih =>
    by_cases hlt : n < 10
    · rw [natDigits_of_lt hlt] at h
      have hall : ∀ n < 10, [Nat.digitChar n].head? = some '0' → n = 0 := by decide
      exact hall n hlt h
    · have hle : 10 ≤ n := Nat.le_of_not_lt hlt
      have hhead : (natDigits (n / 10)).head? = some '0' := by
        rw [natDigits_of_le hle] at h
        obtain ⟨c, cs, hdigits, -⟩ := exists_natDigits_eq_cons (n / 10)
        simpa [hdigits] using h
      have htenth := ih (n / 10) (by omega) hhead
      omega

/-- A digit that fits is taken in. -/
theorem scanWhole_digitChar {d : Nat} (hd : d < 10) (n : Nat) (hfits : n * 10 + d ≤ maxWord)
    (rest : List Char) :
    scanWhole ⟨n, 0⟩ false (Nat.digitChar d :: rest) = scanWhole ⟨n * 10 + d, 0⟩ false rest := by
  have hnot : ¬ maxWord < n * 10 + d := Nat.not_lt.2 hfits
  simp [scanWhole, digit?_digitChar hd, hnot]

/-- The digits of a number that fits are taken in as the number. -/
theorem scanWhole_natDigits {n : Nat} (h : n ≤ maxWord) (rest : List Char) :
    scanWhole ⟨0, 0⟩ false (natDigits n ++ rest) = scanWhole ⟨n, 0⟩ false rest := by
  induction n using Nat.strongRecOn generalizing rest with
  | ind n ih =>
    by_cases hlt : n < 10
    · rw [natDigits_of_lt hlt]
      simpa using scanWhole_digitChar hlt 0 (by omega) rest
    · have hle : 10 ≤ n := Nat.le_of_not_lt hlt
      have hjoin : n / 10 * 10 + n % 10 = n := by omega
      rw [natDigits_of_le hle, List.append_assoc, ih (n / 10) (by omega) (by omega)]
      have hlast := scanWhole_digitChar (Nat.mod_lt n (by decide)) (n / 10) (by omega) rest
      rwa [hjoin] at hlast

/-- A number comes to its end with its digits. -/
theorem scanWhole_of_followsValue {rest : List Char} (h : FollowsValue rest) (scan : Scan) :
    scanWhole scan false rest = (scan, false, rest) := by
  cases rest with
  | nil => rfl
  | cons c rest => rcases h c rfl with rfl | rfl | rfl <;> rfl

/-- **The digits of a number are read back.** -/
theorem readUnsigned_natDigits {n : Nat} (negative : Bool) (h : n ≤ maxWord) {rest : List Char}
    (hrest : FollowsValue rest) :
    readUnsigned negative (natDigits n ++ rest) = some (integer negative n, rest) := by
  have hscan : scanWhole ⟨0, 0⟩ false (natDigits n ++ rest) = (⟨n, 0⟩, false, rest) := by
    rw [scanWhole_natDigits h, scanWhole_of_followsValue hrest]
  obtain ⟨c, cs, hdigits, hdigit⟩ := exists_natDigits_eq_cons n
  -- After a leading zero comes no digit, since only zero itself has one.
  have hzero : ¬ (c = '0' ∧ (cs ++ rest).head?.any Char.isDigit = true) := by
    rintro ⟨rfl, hnext⟩
    have hnone : n = 0 := head?_natDigits (by simp [hdigits])
    subst hnone
    obtain rfl : [] = cs := (List.cons.inj hdigits).2
    rw [List.nil_append, hrest.not_isDigit] at hnext
    cases hnext
  rw [hdigits, List.cons_append] at hscan ⊢
  simp only [readUnsigned, hdigit, Bool.not_true, Bool.false_eq_true, if_false, if_neg hzero,
    hscan]
  cases rest with
  | nil => simp
  | cons d rest => rcases hrest d rfl with rfl | rfl | rfl <;> simp

/-- **An integer is read back** if sixty-four bits hold it. -/
theorem readNumber_intDigits {n : Int} (hlower : -negativeBound ≤ n) (hupper : n ≤ maxWord)
    {rest : List Char} (hrest : FollowsValue rest) :
    readNumber (intDigits n ++ rest) = some (.int n, rest) := by
  unfold intDigits
  by_cases hneg : n < 0
  · rw [if_pos hneg]
    have hbound : n.natAbs ≤ negativeBound := by omega
    have hfits : n.natAbs ≤ maxWord := Nat.le_trans hbound (by decide)
    show readUnsigned true (natDigits n.natAbs ++ rest) = _
    rw [readUnsigned_natDigits true hfits hrest]
    have hinteger : integer true n.natAbs = .int n := by
      have hnonzero : ¬ (n.natAbs = 0 ∨ negativeBound < n.natAbs) := by omega
      have habs : -(n.natAbs : Int) = n := by omega
      rw [integer, if_pos rfl, if_neg hnonzero, habs]
    rw [hinteger]
  · rw [if_neg hneg]
    have hfits : n.natAbs ≤ maxWord := by omega
    have hinteger : integer false n.natAbs = .int n := by
      have habs : (n.natAbs : Int) = n := by omega
      rw [integer, if_neg (by decide), habs]
    rw [← hinteger, ← readUnsigned_natDigits false hfits hrest]
    -- The first digit is no minus sign.
    obtain ⟨c, cs, hdigits, hdigit⟩ := exists_natDigits_eq_cons n.natAbs
    rw [hdigits, List.cons_append, readNumber]
    intro rest hminus
    exact ne_of_isDigit hdigit rfl (List.cons.inj hminus).1

/-! ## Strings -/

/-- Four characters that are no unit make a string unreadable. -/
theorem readChars_of_hexUnit?_none {a b c d : Char} (h : hexUnit? a b c d = none)
    (rest : List Char) : readChars ('\\' :: 'u' :: a :: b :: c :: d :: rest) = none := by
  by_cases hnext : ∃ e f g h more, rest = '\\' :: 'u' :: e :: f :: g :: h :: more
  · obtain ⟨e, f, g, h, more, rfl⟩ := hnext
    simp [readChars, *]
  · rw [readChars]
    · simp [h]
    · intro e f g h more hrest
      exact hnext ⟨e, f, g, h, more, hrest⟩

/-- A unit that is half of no pair is read on its own, whatever comes after it. -/
theorem readChars_unit {a b c d : Char} {unit : Nat} (hunit : hexUnit? a b c d = some unit)
    (hhigh : isHighSurrogate unit = false) (rest : List Char) :
    readChars ('\\' :: 'u' :: a :: b :: c :: d :: rest)
      = (readChars rest).map fun (chars, after) => (unitChar? unit :: chars, after) := by
  by_cases hnext : ∃ e f g h more, rest = '\\' :: 'u' :: e :: f :: g :: h :: more
  · obtain ⟨e, f, g, h, more, rfl⟩ := hnext
    rw [readChars, hunit]
    cases hsecond : hexUnit? e f g h with
    | none => rw [readChars_of_hexUnit?_none hsecond]; rfl
    | some next => simp [hhigh]
  · rw [readChars]
    · rw [hunit]
    · intro e f g h more hrest
      exact hnext ⟨e, f, g, h, more, hrest⟩

/-- A control character is written as the unit of its number. -/
theorem hexUnit?_hexDigit {n : Nat} (h : n < 0x20) :
    hexUnit? '0' '0' (hexDigit (n / 16)) (hexDigit (n % 16)) = some n := by
  have hall : ∀ n < 0x20,
      hexUnit? '0' '0' (hexDigit (n / 16)) (hexDigit (n % 16)) = some n := by decide
  exact hall n h

theorem isHighSurrogate_of_lt {n : Nat} (h : n < 0xd800) : isHighSurrogate n = false := by
  simp only [isHighSurrogate, Bool.and_eq_false_iff, decide_eq_false_iff_not]
  omega

theorem unitChar?_toNat {c : Char} (h : c.toNat < 0xd800) : unitChar? c.toNat = some c := by
  have hlow : isLowSurrogate c.toNat = false := by
    simp only [isLowSurrogate, Bool.and_eq_false_iff, decide_eq_false_iff_not]
    omega
  simp [unitChar?, isHighSurrogate_of_lt h, hlow]

/-- **A character is read back** from its place in a string. -/
theorem readChars_escapeChar (c : Char) (rest : List Char) :
    readChars (escapeChar c ++ rest)
      = (readChars rest).map fun (chars, after) => (some c :: chars, after) := by
  unfold escapeChar
  split
  case h_8 _ hquote hbackslash _ _ _ _ _ =>
    by_cases hcontrol : c.toNat < 0x20
    · have hlt : c.toNat < 0xd800 := by omega
      rw [if_pos hcontrol]
      show readChars ('\\' :: 'u' :: '0' :: '0' :: _ :: _ :: rest) = _
      rw [readChars_unit (hexUnit?_hexDigit hcontrol) (isHighSurrogate_of_lt hlt),
        unitChar?_toNat hlt]
    · have hplain : ¬ (c.toNat < 0x20 ∨ c = '\\') := not_or.2 ⟨hcontrol, hbackslash⟩
      rw [if_neg hcontrol]
      show readChars (c :: rest) = _
      rw [readChars]
      · rw [if_neg hplain]
      all_goals simp_all
  all_goals rw [List.cons_append, List.cons_append, readChars] <;> simp [unescape?]

/-- The characters of a string are read back up to its closing quote. -/
theorem readChars_flatMap_escapeChar (text rest : List Char) :
    readChars (text.flatMap escapeChar ++ '"' :: rest) = some (text.map some, rest) := by
  induction text with
  | nil => rw [List.flatMap_nil, List.nil_append, readChars]; rfl
  | cons c text ih =>
    rw [List.flatMap_cons, List.append_assoc, readChars_escapeChar, ih]
    rfl

/-- **A string is read back** after its opening quote. -/
theorem readString_quoteString (text : String) (rest : List Char) :
    readString (text.toList.flatMap escapeChar ++ '"' :: rest) = some (some text, rest) := by
  have hall : ∀ chars : List Char, (chars.map some).mapM id = some chars := by
    intro chars
    induction chars with
    | nil => rfl
    | cons c chars ih => simp [List.mapM_cons, ih]
  simp [readString, readChars_flatMap_escapeChar, hall]

/-! ## Arrays and objects -/

/-- A text that begins like a part of an array or an object: not with a blank, and not with a
closing bracket. -/
def OpensPart (text : List Char) : Prop :=
  ∃ c cs, text = c :: cs ∧ isBlank c = false ∧ c ≠ ']' ∧ c ≠ '}'

theorem OpensPart.append {text : List Char} (h : OpensPart text) (rest : List Char) :
    OpensPart (text ++ rest) := by
  obtain ⟨c, cs, rfl, hblank, hends⟩ := h
  exact ⟨c, cs ++ rest, rfl, hblank, hends⟩

theorem skipBlanks_cons {c : Char} (h : isBlank c = false) (rest : List Char) :
    skipBlanks (c :: rest) = c :: rest := by simp [skipBlanks, h]

theorem OpensPart.skipBlanks_eq {text : List Char} (h : OpensPart text) :
    skipBlanks text = text := by
  obtain ⟨c, cs, rfl, hblank, -⟩ := h
  exact skipBlanks_cons hblank cs

theorem OpensPart.length_pos {text : List Char} (h : OpensPart text) : 0 < text.length := by
  obtain ⟨c, cs, rfl, -⟩ := h
  exact Nat.succ_pos _

/-- A part is no longer than the parts together. -/
theorem length_le_length_intercalate {parts : List (List Char)} {part : List Char}
    (h : part ∈ parts) : part.length ≤ ([','].intercalate parts).length := by
  induction parts with
  | nil => cases h
  | cons first parts ih =>
    cases parts with
    | nil =>
      obtain rfl := List.mem_singleton.1 h
      exact Nat.le_of_eq (congrArg List.length List.intercalate_singleton.symm)
    | cons next parts =>
      rw [List.intercalate_cons_cons, List.length_append, List.length_append]
      rcases List.mem_cons.1 h with rfl | hlater
      · omega
      · have hrest := ih hlater
        omega

/-- There are no more parts than characters. -/
theorem length_le_of_opensPart {parts : List (List Char)} (h : ∀ part ∈ parts, OpensPart part) :
    parts.length ≤ ([','].intercalate parts).length := by
  induction parts with
  | nil => exact Nat.zero_le _
  | cons first parts ih =>
    have hfirst := (h first List.mem_cons_self).length_pos
    cases parts with
    | nil => rwa [List.intercalate_singleton]
    | cons next parts =>
      have hrest := ih fun part hpart => h part (List.mem_cons_of_mem _ hpart)
      rw [List.intercalate_cons_cons, List.length_append, List.length_append, List.length_cons]
      omega

section Parts

variable {α β : Type} {item : List Char → Option (β × List Char)} {write : α → List Char}
  {read : α → β} {close : Char} {parts : List α}

/-- Parts with commas between them are read back, one after the other. -/
theorem separated_intercalate (hclose : close = ']' ∨ close = '}') (hparts : parts ≠ [])
    (hitem : ∀ part ∈ parts, ∀ rest, FollowsValue rest →
      item (write part ++ rest) = some (read part, rest))
    {budget : Nat} (hbudget : parts.length ≤ budget) (rest : List Char) :
    separated item close budget ([','].intercalate (parts.map write) ++ close :: rest)
      = some (parts.map read, rest) := by
  have hends : isBlank close = false ∧ close ≠ ',' := by
    rcases hclose with rfl | rfl <;> decide
  induction parts generalizing budget with
  | nil => exact absurd rfl hparts
  | cons part parts ih =>
    have hfirst := hitem part List.mem_cons_self
    cases budget with
    | zero => exact absurd hbudget (Nat.not_succ_le_zero _)
    | succ budget =>
      -- After the last part comes the closing bracket, and after any other one a comma.
      cases parts with
      | nil =>
        have hread := hfirst (close :: rest) (followsValue_cons (.inr hclose) rest)
        rw [List.map_singleton, List.intercalate_singleton, separated, hread]
        simp [skipBlanks_cons hends.1, hends.2]
      | cons next parts =>
        have hmore := ih (List.cons_ne_nil _ _)
          (fun part hpart => hitem part (List.mem_cons_of_mem _ hpart))
          (Nat.le_of_succ_le_succ hbudget)
        have hread := hfirst
          (',' :: ([','].intercalate ((next :: parts).map write) ++ close :: rest))
          (followsValue_cons (.inl rfl) _)
        have htext : [','].intercalate ((part :: next :: parts).map write) ++ close :: rest
            = write part
              ++ ',' :: ([','].intercalate ((next :: parts).map write) ++ close :: rest) := by
          simp [List.intercalate_cons_cons]
        rw [htext, separated, hread]
        have hcomma : isBlank ',' = false := rfl
        simp only [skipBlanks_cons hcomma, if_true, hmore]
        rfl

/-- **What stands between brackets is read back.** -/
theorem bracketed_intercalate (hclose : close = ']' ∨ close = '}')
    (hopens : ∀ part ∈ parts, OpensPart (write part))
    (hitem : ∀ part ∈ parts, ∀ rest, FollowsValue rest →
      item (write part ++ rest) = some (read part, rest))
    {budget : Nat} (hbudget : parts.length ≤ budget) (rest : List Char) :
    bracketed item close budget ([','].intercalate (parts.map write) ++ close :: rest)
      = some (parts.map read, rest) := by
  cases parts with
  | nil =>
    have hblank : isBlank close = false := by rcases hclose with rfl | rfl <;> rfl
    simp [bracketed, skipBlanks_cons hblank]
  | cons part parts =>
    have hseparated := separated_intercalate hclose (List.cons_ne_nil part parts) hitem hbudget rest
    have hfirst : OpensPart
        ([','].intercalate ((part :: parts).map write) ++ close :: rest) := by
      have hpart := hopens part List.mem_cons_self
      cases parts with
      | nil => simpa using hpart.append (close :: rest)
      | cons next parts => simpa [List.intercalate_cons_cons] using hpart.append _
    rw [bracketed, hfirst.skipBlanks_eq]
    obtain ⟨c, cs, htext, -, hbracket, hbrace⟩ := hfirst
    -- What opens a part is not the closing bracket.
    have hother : c ≠ close := by
      rcases hclose with rfl | rfl
      · exact hbracket
      · exact hbrace
    rw [htext] at hseparated ⊢
    simp only [if_neg hother, hseparated]

end Parts

/-! ## Values -/

/-- **What a text tells as it is**: no floats and nothing without a value, and of the integers those
of sixty-four bits. -/
inductive Readable : Json → Prop where
  /-- Null. -/
  | null : Readable .null
  /-- A truth value. -/
  | bool (value : Bool) : Readable (.bool value)
  /-- An integer of sixty-four bits, with a sign or without one. -/
  | int {value : Int} (lower : -negativeBound ≤ value) (upper : value ≤ maxWord) :
    Readable (.int value)
  /-- A string. -/
  | string (text : String) : Readable (.string text)
  /-- An array. -/
  | array {items : List Json} (each : ∀ item ∈ items, Readable item) : Readable (.array items)
  /-- An object. -/
  | object {members : List (String × Json)} (each : ∀ member ∈ members, Readable member.2) :
    Readable (.object members)

@[simp] theorem readable_null : Readable .null := .null

@[simp] theorem readable_bool (value : Bool) : Readable (.bool value) := .bool value

@[simp] theorem readable_string (text : String) : Readable (.string text) := .string text

@[simp] theorem readable_array {items : List Json} :
    Readable (.array items) ↔ ∀ item ∈ items, Readable item := by
  constructor
  · rintro ⟨⟩
    assumption
  · exact .array

@[simp] theorem readable_object {members : List (String × Json)} :
    Readable (.object members) ↔ ∀ member ∈ members, Readable member.2 := by
  constructor
  · rintro ⟨⟩
    assumption
  · exact .object

/-- An array is readable if what it is made from gives readable items. -/
theorem Readable.array_map {α : Type} {json : α → Json} {xs : List α}
    (h : ∀ x ∈ xs, (json x).Readable) : (Json.array (xs.map json)).Readable := by
  refine .array fun item hitem => ?_
  obtain ⟨x, hx, rfl⟩ := List.mem_map.1 hitem
  exact h x hx

/-- An object is readable if what it is made from gives readable values. -/
theorem Readable.object_map {α : Type} {name : α → String} {json : α → Json} {xs : List α}
    (h : ∀ x ∈ xs, (json x).Readable) :
    (Json.object (xs.map fun x => (name x, json x))).Readable := by
  refine .object fun member hmember => ?_
  obtain ⟨x, hx, rfl⟩ := List.mem_map.1 hmember
  exact h x hx

/-- A member of an object. -/
def writeMember (member : String × Json) : List Char :=
  quoteString member.1 ++ ':' :: write member.2

/-- The text of a member is longer than that of its value. -/
theorem length_write_le (member : String × Json) :
    (write member.2).length ≤ (writeMember member).length := by
  rw [writeMember, List.length_append, List.length_cons]
  omega

theorem writeItems_eq (items : List Json) :
    writeItems items = [','].intercalate (items.map write) := by
  induction items with
  | nil => rfl
  | cons item items ih =>
    cases items with
    | nil => simp [writeItems]
    | cons next items =>
      rw [writeItems, ih]
      simp [List.intercalate_cons_cons]

theorem writeMembers_eq (members : List (String × Json)) :
    writeMembers members = [','].intercalate (members.map writeMember) := by
  induction members with
  | nil => rfl
  | cons member members ih =>
    obtain ⟨name, value⟩ := member
    cases members with
    | nil => simp [writeMembers, writeMember]
    | cons next members =>
      rw [writeMembers, ih]
      simp [List.intercalate_cons_cons, writeMember]

/-- The text of an array. -/
theorem write_array (items : List Json) :
    write (.array items) = '[' :: ([','].intercalate (items.map write) ++ [']']) := by
  rw [write, writeItems_eq, List.cons_append]

/-- The text of an object. -/
theorem write_object (members : List (String × Json)) :
    write (.object members) = '{' :: ([','].intercalate (members.map writeMember) ++ ['}']) := by
  rw [write, writeMembers_eq, List.cons_append]

theorem opensPart_writeMember (member : String × Json) : OpensPart (writeMember member) :=
  ⟨'"', _, rfl, rfl, by decide, by decide⟩

theorem isBlank_of_isDigit {c : Char} (h : c.isDigit) : isBlank c = false := by
  have hspace := ne_of_isDigit h (d := ' ') rfl
  have hline := ne_of_isDigit h (d := '\n') rfl
  have htab := ne_of_isDigit h (d := '\t') rfl
  have hreturn := ne_of_isDigit h (d := '\r') rfl
  simp [isBlank, hspace, hline, htab, hreturn]

theorem opensPart_intDigits (n : Int) : OpensPart (intDigits n) := by
  unfold intDigits
  split
  · exact ⟨'-', _, rfl, rfl, by decide, by decide⟩
  · obtain ⟨c, cs, hdigits, hdigit⟩ := exists_natDigits_eq_cons n.natAbs
    exact ⟨c, cs, hdigits, isBlank_of_isDigit hdigit, ne_of_isDigit hdigit rfl,
      ne_of_isDigit hdigit rfl⟩

theorem Readable.opensPart {json : Json} (h : Readable json) : OpensPart (write json) := by
  cases h with
  | null => exact ⟨'n', _, rfl, rfl, by decide, by decide⟩
  | bool value => cases value <;> exact ⟨_, _, rfl, rfl, by decide, by decide⟩
  | int => exact opensPart_intDigits _
  | string => exact ⟨'"', _, rfl, rfl, by decide, by decide⟩
  | array => exact ⟨'[', _, rfl, rfl, by decide, by decide⟩
  | object => exact ⟨'{', _, rfl, rfl, by decide, by decide⟩

/-- A member is read back if its value is. -/
theorem readMember_writeMember {value : List Char → Option (Json × List Char)}
    {member : String × Json} {rest : List Char}
    (h : value (write member.2 ++ rest) = some (member.2, rest)) :
    readMember value (writeMember member ++ rest) = some ((some member.1, member.2), rest) := by
  have htext : writeMember member ++ rest
      = '"' :: (member.1.toList.flatMap escapeChar
        ++ '"' :: (':' :: (write member.2 ++ rest))) := by
    simp [writeMember, quoteString]
  have hquote : isBlank '"' = false := rfl
  have hcolon : isBlank ':' = false := rfl
  rw [htext, readMember, skipBlanks_cons hquote]
  simp only [readString_quoteString, skipBlanks_cons hcolon, h]
  rfl

/-- Members that all have names make an object. -/
theorem ofMembers_map_some (members : List (String × Json)) :
    ofMembers (members.map fun member => (some member.1, member.2)) = .object members := by
  have hall : (members.map fun member => (some member.1, member.2)).mapM
      (fun member => member.1.map fun name => (name, member.2)) = some members := by
    induction members with
    | nil => rfl
    | cons member members ih => simp [List.mapM_cons, ih]
  rw [ofMembers, hall]

theorem depth_le_depthItems {items : List Json} {item : Json} (h : item ∈ items) :
    depth item ≤ depthItems items := by
  induction items with
  | nil => cases h
  | cons first items ih =>
    rw [depthItems]
    rcases List.mem_cons.1 h with rfl | hlater
    · exact Nat.le_max_left _ _
    · exact Nat.le_trans (ih hlater) (Nat.le_max_right _ _)

theorem depthItems_le {items : List Json} {bound : Nat} (h : ∀ item ∈ items, depth item ≤ bound) :
    depthItems items ≤ bound := by
  induction items with
  | nil => exact Nat.zero_le _
  | cons first items ih =>
    have hfirst := h first List.mem_cons_self
    have hrest := ih fun item hitem => h item (List.mem_cons_of_mem _ hitem)
    exact Nat.max_le.2 ⟨hfirst, hrest⟩

theorem depth_le_depthMembers {members : List (String × Json)} {member : String × Json}
    (h : member ∈ members) : depth member.2 ≤ depthMembers members := by
  induction members with
  | nil => cases h
  | cons first members ih =>
    rw [depthMembers]
    rcases List.mem_cons.1 h with rfl | hlater
    · exact Nat.le_max_left _ _
    · exact Nat.le_trans (ih hlater) (Nat.le_max_right _ _)

theorem depthMembers_le {members : List (String × Json)} {bound : Nat}
    (h : ∀ member ∈ members, depth member.2 ≤ bound) : depthMembers members ≤ bound := by
  induction members with
  | nil => exact Nat.zero_le _
  | cons first members ih =>
    have hfirst := h first List.mem_cons_self
    have hrest := ih fun member hmember => h member (List.mem_cons_of_mem _ hmember)
    exact Nat.max_le.2 ⟨hfirst, hrest⟩

/-- A number begins like nothing else. -/
theorem readValue_of_number {c : Char} (h : c.isDigit ∨ c = '-') (budget levels : Nat)
    (cs : List Char) : readValue budget (levels + 1) (c :: cs) = readNumber (c :: cs) := by
  have hblank : isBlank c = false := by
    rcases h with hdigit | rfl
    · exact isBlank_of_isDigit hdigit
    · rfl
  rw [readValue, skipBlanks_cons hblank]
  have hother : ∀ d : Char, d.isDigit = false → d ≠ '-' → c ≠ d := by
    rintro d hd hminus rfl
    simp [hd, hminus] at h
  split
  all_goals first
    | rfl
    | next heq => exact absurd (List.cons.inj heq).1 (hother _ rfl (by decide))

/-- The text of an array reads as the array if its items are read back. -/
theorem readValue_array {items : List Json} {budget levels : Nat} {rest : List Char}
    (hopens : ∀ item ∈ items, OpensPart (write item))
    (hitems : ∀ item ∈ items, ∀ rest, FollowsValue rest →
      readValue budget levels (write item ++ rest) = some (item, rest))
    (hbudget : items.length ≤ budget) :
    readValue budget (levels + 1) (write (.array items) ++ rest) = some (.array items, rest) := by
  have hbetween := bracketed_intercalate (.inl rfl) hopens hitems hbudget rest
  have hbracket : isBlank '[' = false := rfl
  rw [write_array, List.cons_append, List.append_assoc, List.singleton_append, readValue,
    skipBlanks_cons hbracket]
  simp [hbetween]

/-- The text of an object reads as the object if the values of its members are read back. -/
theorem readValue_object {members : List (String × Json)} {budget levels : Nat} {rest : List Char}
    (hmembers : ∀ member ∈ members, ∀ rest, FollowsValue rest →
      readValue budget levels (write member.2 ++ rest) = some (member.2, rest))
    (hbudget : members.length ≤ budget) :
    readValue budget (levels + 1) (write (.object members) ++ rest)
      = some (.object members, rest) := by
  have hbetween := bracketed_intercalate (.inr rfl) (fun member _ => opensPart_writeMember member)
    (fun member hmember rest hrest => readMember_writeMember (hmembers member hmember rest hrest))
    hbudget rest
  have hbrace : isBlank '{' = false := rfl
  rw [write_object, List.cons_append, List.append_assoc, List.singleton_append, readValue,
    skipBlanks_cons hbrace]
  simp [hbetween, ofMembers_map_some]

/-- **A value is read back** from the head of a text, whatever follows it. -/
theorem Readable.readValue_eq {json : Json} (h : Readable json) {budget levels : Nat}
    (hbudget : (write json).length ≤ budget) (hlevels : json.depth ≤ levels) {rest : List Char}
    (hrest : FollowsValue rest) :
    readValue budget (levels + 1) (write json ++ rest) = some (json, rest) := by
  induction h generalizing levels rest with
  | null => rfl
  | bool value => cases value <;> rfl
  | @int value hlower hupper =>
    show readValue budget (levels + 1) (intDigits value ++ rest) = _
    rw [← readNumber_intDigits hlower hupper hrest]
    unfold intDigits
    split
    · exact readValue_of_number (.inr rfl) budget levels _
    · obtain ⟨c, cs, hdigits, hdigit⟩ := exists_natDigits_eq_cons value.natAbs
      rw [hdigits]
      exact readValue_of_number (.inl hdigit) budget levels _
  | string text =>
    have htext : write (.string text) ++ rest
        = '"' :: (text.toList.flatMap escapeChar ++ '"' :: rest) := by
      simp [write, scalar, quoteString]
    have hquote : isBlank '"' = false := rfl
    rw [htext, readValue, skipBlanks_cons hquote]
    simp [readString_quoteString, ofText]
  | @array items heach ih =>
    rw [write_array, List.length_cons, List.length_append] at hbudget
    rw [depth] at hlevels
    obtain ⟨below, rfl⟩ : ∃ below, levels = below + 1 := ⟨levels - 1, by omega⟩
    have hopens : ∀ text ∈ items.map write, OpensPart text := by
      intro text htext
      obtain ⟨item, hitem, rfl⟩ := List.mem_map.1 htext
      exact (heach item hitem).opensPart
    refine readValue_array (fun item hitem => (heach item hitem).opensPart) ?_ ?_
    · intro item hitem rest hrest
      -- An item has a shorter text and nests less deep.
      have hlength := length_le_length_intercalate (List.mem_map_of_mem (f := write) hitem)
      have hdepth := depth_le_depthItems hitem
      exact ih item hitem (by omega) (by omega) hrest
    · have hcount := length_le_of_opensPart hopens
      rw [List.length_map] at hcount
      omega
  | @object members heach ih =>
    rw [write_object, List.length_cons, List.length_append] at hbudget
    rw [depth] at hlevels
    obtain ⟨below, rfl⟩ : ∃ below, levels = below + 1 := ⟨levels - 1, by omega⟩
    have hopens : ∀ text ∈ members.map writeMember, OpensPart text := by
      intro text htext
      obtain ⟨member, -, rfl⟩ := List.mem_map.1 htext
      exact opensPart_writeMember member
    refine readValue_object ?_ ?_
    · intro member hmember rest hrest
      have hlength :=
        length_le_length_intercalate (List.mem_map_of_mem (f := writeMember) hmember)
      have hvalue := length_write_le member
      have hdepth := depth_le_depthMembers hmember
      exact ih member hmember (by omega) (by omega) hrest
    · have hcount := length_le_of_opensPart hopens
      rw [List.length_map] at hcount
      omega

/-! ## Whole texts -/

/-- Values nest no deeper than their text is long. -/
theorem Readable.depth_le_length {json : Json} (h : Readable json) :
    json.depth ≤ (write json).length := by
  induction h with
  | null | bool | int | string => exact Nat.zero_le _
  | @array items heach ih =>
    have hitems : depthItems items ≤ ([','].intercalate (items.map write)).length :=
      depthItems_le fun item hitem => Nat.le_trans (ih item hitem)
        (length_le_length_intercalate (List.mem_map_of_mem hitem))
    rw [write_array, List.length_cons, List.length_append, depth]
    omega
  | @object members heach ih =>
    have hmembers : depthMembers members ≤ ([','].intercalate (members.map writeMember)).length :=
      depthMembers_le fun member hmember => Nat.le_trans (ih member hmember)
        (Nat.le_trans (length_write_le member)
          (length_le_length_intercalate (List.mem_map_of_mem hmember)))
    rw [write_object, List.length_cons, List.length_append, depth]
    omega

/-- **A JSON text is read back** as the value that was written. -/
theorem Readable.parse?_compact {json : Json} (h : Readable json) :
    parse? json.compact = some json := by
  have hread := h.readValue_eq (Nat.le_succ _) h.depth_le_length followsValue_nil
  rw [List.append_nil] at hread
  have hlist : json.compact.toList = write json := String.toList_ofList
  have hnone : skipBlanks [] = [] := rfl
  simp only [parse?, hlist, hread, hnone, if_true]

end GraphQuery.Json
