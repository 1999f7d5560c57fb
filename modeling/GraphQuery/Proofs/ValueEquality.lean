import GraphQuery.Proofs.ValueJson
import Mathlib.Data.List.Forall2

/-! # Equality of values

Values are compared part by part: lists item by item, and objects name by name in whatever order.
Records and streams are compared by identity, so that what is in them does not count. A NaN is not
even equal to itself; apart from that every value is (`Value.Comparable.equals_self`), if the names
of its entries are distinct as those of a map are. -/

namespace GraphQuery.Value

/-- **There is no NaN in a value**, apart from what is in its records. -/
inductive NaNFree : Value → Prop where
  /-- Null. -/
  | null : NaNFree .null
  /-- A truth value. -/
  | boolean (value : Bool) : NaNFree (.boolean value)
  /-- An integer. -/
  | int (value : Int64) : NaNFree (.int value)
  /-- A float that is a number. -/
  | float {value : Binary64} (number : value.isNaN = false) : NaNFree (.float value)
  /-- A text. -/
  | string (text : String) : NaNFree (.string text)
  /-- Bytes. -/
  | bytes (data : List UInt8) : NaNFree (.bytes data)
  /-- A list without NaNs. -/
  | list {items : List Value} (each : ∀ item ∈ items, NaNFree item) : NaNFree (.list items)
  /-- An object without NaNs. -/
  | object {entries : List (String × Value)} (each : ∀ entry ∈ entries, NaNFree entry.2) :
    NaNFree (.object entries)
  /-- A record, whatever is in it. -/
  | record (identity : Nat) (fields : List (FieldDescriptor × Value)) :
    NaNFree (.record identity fields)
  /-- A stream. -/
  | stream (channel : Nat) : NaNFree (.stream channel)

/-- **A value that can be compared**: no NaN is in it, and its objects are maps. -/
structure Comparable (value : Value) : Prop where
  /-- The keys of every object are distinct. -/
  keyed : value.WellKeyed
  /-- There is no NaN. -/
  numbers : value.NaNFree

/-! ## The parts of values -/

/-- The items of a list are well keyed, at each index. -/
theorem WellKeyed.item {items : List Value} (h : (Value.list items).WellKeyed) {i : Nat}
    {item : Value} (hitem : items[i]? = some item) : item.WellKeyed := by
  cases h with
  | list each => exact each item (List.mem_of_getElem? hitem)

/-- The values in an object are well keyed, under each name. -/
theorem WellKeyed.value {entries : Entries Value} (h : (Value.object entries).WellKeyed)
    {key : String} {value : Value} (hvalue : Entries.get? entries key = some value) :
    value.WellKeyed := by
  cases h with
  | object _ each => exact each _ (Entries.mem_of_get? hvalue)

/-- The entries of an object are a map. -/
def WellKeyed.map {entries : Entries Value} (h : (Value.object entries).WellKeyed) :
    Entries.Map Value :=
  ⟨entries, by cases h with | object distinct _ => exact distinct⟩

/-! ## Lists and objects -/

/-- Lists are equal item by item. -/
theorem itemsEqual_iff {as bs : List Value} :
    itemsEqual as bs = true ↔ List.Forall₂ (fun a b => a.equals b = true) as bs := by
  induction as generalizing bs with
  | nil => cases bs <;> simp [itemsEqual]
  | cons a as ih => cases bs <;> simp [itemsEqual, ih]

/-- Lists of one length are equal if they are so at each index. -/
theorem equals_list_of_getElem? {as bs : List Value} (length : as.length = bs.length)
    (h : ∀ (i : Nat) a b, as[i]? = some a → bs[i]? = some b → a.equals b = true) :
    (list as).equals (list bs) = true := by
  rw [equals, itemsEqual_iff, List.forall₂_iff_get]
  refine ⟨length, ?_⟩
  intro i hi hi'
  exact h i _ _ (List.getElem?_eq_getElem hi) (List.getElem?_eq_getElem hi')

/-- **Objects are equal if each name has equal values in them, or none in both.** -/
theorem equals_object_of_get? (as bs : Entries.Map Value)
    (h : ∀ key, Option.Rel (fun a b => a.equals b = true) (Entries.get? as.val key)
      (Entries.get? bs.val key)) :
    (object as.val).equals (object bs.val) = true := by
  have hlength : as.val.length = bs.val.length := by
    apply as.length_eq bs
    intro key
    have hrel := h key
    revert hrel
    cases Entries.get? as.val key <;> cases Entries.get? bs.val key <;> simp
  have hwithin : entriesWithin as.val bs.val = true := by
    rw [entriesWithin_iff]
    intro entry hentry
    have hrel := h entry.1
    rw [as.property.get?_of_mem hentry] at hrel
    cases hget : Entries.get? bs.val entry.1 with
    | none => rw [hget] at hrel; cases hrel
    | some b =>
      rw [hget] at hrel
      cases hrel with
      | some hequal => exact ⟨b, rfl, hequal⟩
  rw [equals, hlength, hwithin]
  simp

/-! ## Comparable values -/

theorem comparable_null : Comparable .null := ⟨.null, .null⟩

/-- A list of what can be compared can be compared. -/
theorem comparable_list {items : List Value} (each : ∀ item ∈ items, item.Comparable) :
    (list items).Comparable :=
  ⟨.list fun item hitem => (each item hitem).keyed,
    .list fun item hitem => (each item hitem).numbers⟩

/-- An object of what can be compared, under distinct keys, can be compared. -/
theorem comparable_object {entries : Entries Value} (distinct : Entries.DistinctKeys entries)
    (each : ∀ entry ∈ entries, entry.2.Comparable) : (object entries).Comparable :=
  ⟨.object distinct fun entry hentry => (each entry hentry).keyed,
    .object fun entry hentry => (each entry hentry).numbers⟩

/-- A list can be compared if its items can, at each index. -/
theorem comparable_list_iff {items : List Value} :
    (list items).Comparable ↔ ∀ (i : Nat) item, items[i]? = some item → item.Comparable := by
  constructor
  · intro h i item hitem
    have hmem := List.mem_of_getElem? hitem
    cases h.keyed with
    | list hkeyed =>
      cases h.numbers with
      | list hnumbers => exact ⟨hkeyed item hmem, hnumbers item hmem⟩
  · intro h
    apply comparable_list
    intro item hitem
    obtain ⟨i, hi⟩ := List.mem_iff_getElem?.1 hitem
    exact h i item hi

/-- An object can be compared if its keys are distinct and the values under them can. -/
theorem comparable_object_iff {entries : Entries Value} :
    (object entries).Comparable ↔ Entries.DistinctKeys entries
      ∧ ∀ key value, Entries.get? entries key = some value → value.Comparable := by
  constructor
  · intro h
    cases h.keyed with
    | object hdistinct hkeyed =>
      refine ⟨hdistinct, ?_⟩
      intro key value hvalue
      have hmem := Entries.mem_of_get? hvalue
      cases h.numbers with
      | object hnumbers => exact ⟨hkeyed _ hmem, hnumbers _ hmem⟩
  · rintro ⟨hdistinct, h⟩
    apply comparable_object hdistinct
    intro entry hentry
    exact h entry.1 entry.2 (hdistinct.get?_of_mem hentry)

/-- **A value that can be compared is equal to itself.** -/
theorem Comparable.equals_self {value : Value} (h : value.Comparable) :
    value.equals value = true := by
  obtain ⟨hkeyed, hnumbers⟩ := h
  induction hnumbers with
  | null => rfl
  | boolean | int | string | bytes | record | stream => simp [equals]
  | float number => exact Binary64.equals_self number
  | @list items _ ih =>
    cases hkeyed with
    | list heach =>
      rw [equals, itemsEqual_iff]
      exact List.forall₂_same.2 fun item hitem => ih item hitem (heach item hitem)
  | @object entries _ ih =>
    cases hkeyed with
    | object hdistinct heach =>
      apply equals_object_of_get? ⟨entries, hdistinct⟩ ⟨entries, hdistinct⟩
      intro key
      cases hget : Entries.get? entries key with
      | none => exact .none
      | some value =>
        have hmem := Entries.mem_of_get? hget
        exact .some (ih _ hmem (heach _ hmem))

/-- **The order of entries does not count**: an object that can be compared is equal to every object
in which each name has the same value. -/
theorem Comparable.equals_of_get?_eq {as : Entries Value} (h : (object as).Comparable)
    (bs : Entries.Map Value) (hsame : ∀ key, Entries.get? as key = Entries.get? bs.val key) :
    (object as).equals (object bs.val) = true := by
  obtain ⟨has, heach⟩ := comparable_object_iff.1 h
  apply equals_object_of_get? ⟨as, has⟩ bs
  intro key
  rw [← hsame key]
  cases hget : Entries.get? as key with
  | none => exact .none
  | some value => exact .some (heach key value hget).equals_self

end GraphQuery.Value
