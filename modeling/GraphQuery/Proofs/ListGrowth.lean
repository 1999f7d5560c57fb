import GraphQuery.Overflow
import GraphQuery.Proofs.Placement

/-! # Lists that grow to an index

An index of a path has sixty-four bits, and so has the size of a list. A list that is to have a
place at an index grows to a size of one more, and that sum does not always fit. Here values are put
at paths with the arithmetic carried out in words (`Variables.insertInWords`), whether an addition
notices that its sum does not fit or not. Only the largest index makes a difference: with any other
one the sum is exact and the place is there, and with the largest one nothing can be put at the path
(`Variables.exists_insertInWords_iff`). -/

namespace GraphQuery

/-- **What keeps a list from having a place at an index.** -/
inductive GrowthFault where
  /-- The size does not fit. -/
  | sizeOverflow (index : UInt64)
  /-- The list has grown, but not to the index. -/
  | noPlace (index : UInt64)
deriving DecidableEq

namespace Value

/-- The size of a list whose last place is at an index. -/
def sizeFor (overflow : Overflow) (index : UInt64) : Except GrowthFault UInt64 :=
  match overflow.succ? index with
  | some size => .ok size
  | none => .error (.sizeOverflow index)

/-- A list of another size: cut off, or longer by nulls. -/
def resize (items : List Value) (size : UInt64) : List Value :=
  items.take size.toNat ++ List.replicate (size.toNat - items.length) null

/-- A list that has been made longer if it ended before an index. -/
def grow (overflow : Overflow) (items : List Value) (index : UInt64) :
    Except GrowthFault (List Value) :=
  if items.length ≤ index.toNat then (sizeFor overflow index).map (resize items) else .ok items

/-- A list that has grown to an index, and the item that is there. -/
def place (overflow : Overflow) (items : List Value) (index : UInt64) :
    Except GrowthFault (List Value × Value) :=
  (grow overflow items index).bind fun grown =>
    match grown[index.toNat]? with
    | some item => .ok (grown, item)
    | none => .error (.noPlace index)

/-- **A value with another one put at a place inside it**, in words. -/
def assignInWords (overflow : Overflow) (new : Value) :
    List Segment → Value → Except GrowthFault Value
  | [], _ => .ok new
  | .index i :: rest, value =>
    (place overflow (value.list?.getD []) (UInt64.ofNat i)).bind fun (grown, item) =>
      (assignInWords overflow new rest item).map fun part => list (grown.set i part)
  | .key k :: rest, value =>
    let entries := value.object?.getD []
    (assignInWords overflow new rest ((Entries.get? entries k).getD null)).map fun part =>
      object (Entries.insert entries k part)

end Value

namespace Variables

/-- **Puts a value at a path**, in words. -/
def insertInWords (overflow : Overflow) (given : Variables) (path : String) (value : Value) :
    Except GrowthFault Variables :=
  let (name, segments) := splitPath path
  (Value.assignInWords overflow value segments ((given.get? name).getD .null)).map fun top =>
    given.insert name top

end Variables

/-- The fault that an addition which does not fit leads to. -/
def Overflow.fault : Overflow → UInt64 → GrowthFault
  | .noticed, index => .sizeOverflow index
  | .wraps, index => .noPlace index

/-! ## Indices -/

namespace Segment

/-- An index that a text stands for fits into sixty-four bits. -/
theorem le_maxIndex_of_ofText {text : List Char} {i : Nat} (h : ofText text = .index i) :
    i ≤ maxIndex := by
  rw [ofText] at h
  split at h
  · next j hj =>
    cases h
    simp only [index?, Option.ite_none_left_eq_some, not_or, Nat.not_lt, Option.some.injEq] at hj
    obtain ⟨⟨-, -, hle⟩, rfl⟩ := hj
    exact hle
  · cases h

/-- So it is not changed by being put into a word. -/
theorem toNat_ofNat {i : Nat} (h : i ≤ maxIndex) : (UInt64.ofNat i).toNat = i :=
  UInt64.toNat_ofNat_of_lt' (Nat.lt_succ_of_le h)

end Segment

/-- The indices of a path fit into sixty-four bits. -/
theorem Variables.Spells.le_maxIndex {path name : String} {segments : List Segment}
    (h : Spells path name segments) : ∀ i, .index i ∈ segments → i ≤ Segment.maxIndex := by
  obtain ⟨texts, rfl, -, -⟩ := h
  intro i hi
  obtain ⟨text, -, htext⟩ := List.mem_map.1 hi
  exact Segment.le_maxIndex_of_ofText htext

/-! ## One list -/

namespace Value

variable {overflow : Overflow} {items : List Value} {index : UInt64}

/-- One more than an index fits for every index but the largest one. -/
theorem fits_iff_ne (index : UInt64) :
    index.toNat + 1 < UInt64.size ↔ index.toNat ≠ Segment.maxIndex := by
  have hlt := index.toNat_lt
  rw [Segment.maxIndex, UInt64.size]
  omega

/-- **The size of a list is exact** for every index but the largest one. -/
theorem toNat_add_one_iff (index : UInt64) :
    (index + 1).toNat = index.toNat + 1 ↔ index.toNat ≠ Segment.maxIndex :=
  (Overflow.toNat_add_one_iff index).trans (fits_iff_ne index)

/-- For any other index than the largest one, the size does not depend on what an addition does
about a sum that does not fit. -/
theorem sizeFor_of_ne (h : index.toNat ≠ Segment.maxIndex) :
    sizeFor overflow index = .ok (index + 1) := by
  rw [sizeFor, overflow.succ?_of_lt ((fits_iff_ne index).2 h)]

/-- A list has grown to an index by nulls. -/
theorem grow_of_ne (h : index.toNat ≠ Segment.maxIndex) :
    grow overflow items index
      = .ok (items ++ List.replicate (index.toNat + 1 - items.length) null) := by
  rw [grow]
  by_cases hshort : items.length ≤ index.toNat
  · rw [if_pos hshort, sizeFor_of_ne h, Except.map, resize, (toNat_add_one_iff index).2 h,
      List.take_of_length_le (by omega)]
  · have hlong : index.toNat + 1 - items.length = 0 := by omega
    rw [if_neg hshort, hlong, List.replicate_zero, List.append_nil]

/-- At the index to which a list has been padded there is the item that was there, or null. -/
theorem getElem?_padded_self (items : List Value) (i : Nat) :
    (items ++ List.replicate (i + 1 - items.length) null)[i]? = some (items[i]?.getD null) := by
  rw [getElem?_padded, if_pos (Nat.lt_succ_self i), Option.or_some]

/-- **Below the largest index a list has a place**, with the item that was there, or null. -/
theorem place_of_ne (h : index.toNat ≠ Segment.maxIndex) :
    place overflow items index
      = .ok (items ++ List.replicate (index.toNat + 1 - items.length) null,
        items[index.toNat]?.getD null) := by
  rw [place, grow_of_ne h, Except.bind, getElem?_padded_self]

/-- **A list has no place at the largest index**: either its size does not fit, or it is cut off to
a size of nothing. -/
theorem place_of_eq (overflow : Overflow) (h : index.toNat = Segment.maxIndex)
    (hsize : items.length ≤ Segment.maxIndex) :
    place overflow items index = .error (overflow.fault index) := by
  have hlarge : ¬ index.toNat + 1 < UInt64.size := fun hfits => (fits_iff_ne index).1 hfits h
  have hshort : items.length ≤ index.toNat := h ▸ hsize
  rw [place, grow, if_pos hshort]
  cases overflow with
  | noticed =>
    rw [sizeFor, Overflow.noticed_succ?_of_not_lt hlarge]
    rfl
  | wraps =>
    have hnone : resize items (index + 1) = [] := by
      rw [resize, Overflow.toNat_add_one_of_not_lt hlarge, Nat.zero_sub]
      rfl
    rw [sizeFor, Overflow.succ?, Except.map, hnone]
    rfl

/-- **A list has grown to an index** exactly if that is not the largest one. -/
theorem exists_grow_iff (overflow : Overflow) (index : UInt64)
    (hsize : items.length ≤ Segment.maxIndex) :
    (∃ grown, grow overflow items index = .ok grown ∧ index.toNat < grown.length)
      ↔ index.toNat ≠ Segment.maxIndex := by
  constructor
  · rintro ⟨grown, hgrow, hlong⟩ hmax
    have hnone := place_of_eq overflow hmax hsize
    rw [place, hgrow, Except.bind, List.getElem?_eq_getElem hlong] at hnone
    cases hnone
  · intro hne
    refine ⟨_, grow_of_ne hne, ?_⟩
    rw [List.length_append, List.length_replicate]
    omega

/-- Setting the place of a list that has grown changes the item there. -/
theorem set_eq_setPadded (items : List Value) (i : Nat) (f : Value → Value) :
    (items ++ List.replicate (i + 1 - items.length) null).set i (f (items[i]?.getD null))
      = setPadded items i f := by
  rw [setPadded, List.modify_eq_set, getElem?_padded_self, Option.getD_some]

/-! ## A whole path -/

/-- **The size of every list in a value fits** into sixty-four bits, wherever segments lead. -/
def Sized (value : Value) : Prop :=
  ∀ way items, value.reach? way = some (list items) → items.length ≤ Segment.maxIndex

/-- A value that is not a list and has no parts is sized. -/
theorem sized_of_noParts {value : Value} (hlist : value.list? = none)
    (hparts : ∀ segment, value.part? segment = none) : value.Sized := by
  rintro (_ | ⟨segment, way⟩) items hreach
  · obtain rfl : value = list items := Option.some.inj hreach
    cases hlist
  · rw [reach?, hparts] at hreach
    cases hreach

/-- The parts of a value are sized, and null in their place is too. -/
theorem Sized.part {value : Value} (h : value.Sized) (segment : Segment) :
    ((value.part? segment).getD null).Sized := by
  cases hpart : value.part? segment with
  | none => exact sized_of_noParts rfl fun segment => by cases segment <;> rfl
  | some part =>
    intro way items hreach
    exact h (segment :: way) items (by rw [reach?, hpart]; exact hreach)

/-- The items of a sized value are few enough. -/
theorem Sized.length_le {value : Value} (h : value.Sized) :
    (value.list?.getD []).length ≤ Segment.maxIndex := by
  cases value with
  | list items => exact h [] items rfl
  | _ => exact Nat.zero_le _

/-- What is changed in an entry is set as its new value. -/
theorem insert_eq_setEntry (entries : Entries Value) (k : String) (f : Value → Value) :
    Entries.insert entries k (f ((Entries.get? entries k).getD null)) = setEntry entries k f := by
  unfold Entries.insert setEntry
  induction entries with
  | nil => rfl
  | cons entry rest ih =>
    obtain ⟨key, value⟩ := entry
    rw [Entries.upsert, Entries.upsert, Entries.get?_cons]
    by_cases hkey : key = k
    · rw [if_pos hkey, if_pos hkey, if_pos hkey, Option.getD_some]
    · rw [if_neg hkey, if_neg hkey, if_neg hkey, ih]

/-- **Without the largest index a value is put at its place** in words as it is without bounds. -/
theorem assignInWords_eq (overflow : Overflow) (new : Value) {segments : List Segment}
    (h : ∀ i, .index i ∈ segments → i < Segment.maxIndex) (value : Value) :
    assignInWords overflow new segments value = .ok (assign new segments value) := by
  induction segments generalizing value with
  | nil => rfl
  | cons segment rest ih =>
    have hrest := ih fun i hi => h i (List.mem_cons_of_mem _ hi)
    rw [assign_cons]
    cases segment with
    | index i =>
      have hi := h i List.mem_cons_self
      have hword := Segment.toNat_ofNat (Nat.le_of_lt hi)
      have hne : (UInt64.ofNat i).toNat ≠ Segment.maxIndex := hword.trans_ne (Nat.ne_of_lt hi)
      rw [assignInWords, place_of_ne hne, hword]
      show (assignInWords overflow new rest _).map _ = _
      rw [hrest, Except.map, set_eq_setPadded]
      rfl
    | key k =>
      rw [assignInWords]
      show (assignInWords overflow new rest _).map _ = _
      rw [hrest, Except.map, insert_eq_setEntry]
      rfl

/-- **With the largest index nothing is put at its place**, wherever on the path it is. -/
theorem assignInWords_of_mem (overflow : Overflow) (new : Value) {segments : List Segment}
    (hmem : .index Segment.maxIndex ∈ segments)
    (hindex : ∀ i, .index i ∈ segments → i ≤ Segment.maxIndex) {value : Value}
    (hsized : value.Sized) :
    assignInWords overflow new segments value
      = .error (overflow.fault (UInt64.ofNat Segment.maxIndex)) := by
  -- The induction follows the path; whatever comes before the largest index has its place.
  induction segments generalizing value with
  | nil => cases hmem
  | cons segment rest ih =>
    have hpart := hsized.part segment
    have hrest : .index Segment.maxIndex ∈ rest →
        assignInWords overflow new rest ((value.part? segment).getD null)
          = .error (overflow.fault (UInt64.ofNat Segment.maxIndex)) := fun hlater =>
      ih hlater (fun i hi => hindex i (List.mem_cons_of_mem _ hi)) hpart
    cases segment with
    | index i =>
      have hword := Segment.toNat_ofNat (hindex i List.mem_cons_self)
      rw [assignInWords]
      by_cases hi : i = Segment.maxIndex
      · subst hi
        rw [place_of_eq overflow hword hsized.length_le]
        rfl
      · have hlater : .index Segment.maxIndex ∈ rest :=
          (List.mem_cons.1 hmem).resolve_left fun hfirst => hi (Segment.index.inj hfirst).symm
        rw [place_of_ne (hword.trans_ne hi), hword, ← part?_index_getD]
        show (assignInWords overflow new rest _).map _ = _
        rw [hrest hlater]
        rfl
    | key k =>
      have hlater : .index Segment.maxIndex ∈ rest := (List.mem_cons.1 hmem).resolve_left nofun
      rw [assignInWords, ← part?_key_getD, hrest hlater]
      rfl

end Value

/-! ## Variables -/

namespace Variables

section

variable {path name : String} {segments : List Segment} (hpath : Spells path name segments)

include hpath

/-- Without the largest index a value is put at a path as it is without bounds. -/
theorem insertInWords_eq (overflow : Overflow) (h : .index Segment.maxIndex ∉ segments)
    (given : Variables) (value : Value) :
    ∃ after, given.insertInWords overflow path value = .ok after
      ∧ given.insertAtPath path value = .ok after := by
  have hlt : ∀ i, .index i ∈ segments → i < Segment.maxIndex := by
    intro i hi
    refine Nat.lt_of_le_of_ne (hpath.le_maxIndex i hi) ?_
    rintro rfl
    exact h hi
  refine ⟨_, ?_, insertAtPath_eq hpath hlt given value⟩
  simp only [insertInWords, spells_iff.1 hpath, Value.assignInWords_eq overflow value hlt,
    Except.map, insert, get?, Value.insert_eq_setEntry]

/-- With the largest index neither gives variables. -/
theorem insertInWords_of_mem (overflow : Overflow) (h : .index Segment.maxIndex ∈ segments)
    {given : Variables} (hsized : (Value.object given.entries).Sized) (value : Value) :
    given.insertInWords overflow path value
        = .error (overflow.fault (UInt64.ofNat Segment.maxIndex))
      ∧ ∃ fault, given.insertAtPath path value = .error fault := by
  have htop : ((given.get? name).getD .null).Sized := hsized.part (.key name)
  constructor
  · simp only [insertInWords, spells_iff.1 hpath,
      Value.assignInWords_of_mem overflow value h hpath.le_maxIndex htop, Except.map]
  · cases hoverlong : overlongIndex? segments with
    | none =>
      rw [overlongIndex?, List.findSome?_eq_none_iff] at hoverlong
      have hnone := hoverlong _ h
      simp at hnone
    | some i =>
      refine ⟨.indexTooLarge i, ?_⟩
      simp only [insertAtPath, spells_iff.1 hpath, hoverlong]

end

/-- **A value can be put at a path in words exactly if the path does not have the largest index**
`2 ^ 64 - 1`, whatever an addition does about a sum that does not fit. If it can, the variables are
those that are given without bounds. On the way, the size of a list is exact and the list has a
place at the index, for every index but the largest one. -/
theorem exists_insertInWords_iff (overflow : Overflow) {given : Variables}
    (hsized : (Value.object given.entries).Sized) {path name : String} {segments : List Segment}
    (hpath : Spells path name segments) (value : Value) :
    ((∃ after, given.insertInWords overflow path value = .ok after)
        ↔ .index Segment.maxIndex ∉ segments)
      ∧ (∀ after, given.insertInWords overflow path value = .ok after
        ↔ given.insertAtPath path value = .ok after)
      ∧ ∀ i, .index i ∈ segments → ∀ items : List Value, items.length ≤ Segment.maxIndex →
        ((UInt64.ofNat i + 1).toNat = i + 1 ↔ i ≠ Segment.maxIndex)
          ∧ ((∃ grown, Value.grow overflow items (UInt64.ofNat i) = .ok grown ∧ i < grown.length)
            ↔ i ≠ Segment.maxIndex) := by
  refine ⟨?_, ?_, ?_⟩
  · constructor
    · rintro ⟨after, hafter⟩ hmem
      obtain ⟨hfault, -⟩ := insertInWords_of_mem hpath overflow hmem hsized value
      cases hafter.symm.trans hfault
    · intro hmem
      obtain ⟨after, hafter, -⟩ := insertInWords_eq hpath overflow hmem given value
      exact ⟨after, hafter⟩
  · intro after
    by_cases hmem : .index Segment.maxIndex ∈ segments
    · obtain ⟨hwords, fault, hfault⟩ := insertInWords_of_mem hpath overflow hmem hsized value
      rw [hwords, hfault]
      exact iff_of_false nofun nofun
    · obtain ⟨found, hwords, hfound⟩ := insertInWords_eq hpath overflow hmem given value
      rw [hwords, hfound]
      simp
  · intro i hi items hsize
    have hword := Segment.toNat_ofNat (hpath.le_maxIndex i hi)
    have hexact := Value.toNat_add_one_iff (UInt64.ofNat i)
    have hgrow := Value.exists_grow_iff overflow (UInt64.ofNat i) hsize
    rw [hword] at hexact hgrow
    exact ⟨hexact, hgrow⟩

/-- No variables at all are sized. -/
theorem sized_empty : (Value.object empty.entries).Sized :=
  Value.sized_of_noParts rfl fun segment => by cases segment <;> rfl

/-- The largest index after a key and a small index, in two spellings; one more is not an index but
a key. -/
theorem not_insertInWords_largestIndex :
    (¬ ∃ after, empty.insertInWords .noticed "a.b.0.18446744073709551615" .null = .ok after)
      ∧ (¬ ∃ after, empty.insertInWords .wraps "a.b.0.+018446744073709551615" .null = .ok after)
      ∧ ∃ after, empty.insertInWords .wraps "a.b.0.18446744073709551616" .null = .ok after := by
  have hpath₁ : Spells "a.b.0.18446744073709551615" "a"
      [.key "b", .index 0, .index 0xffffffffffffffff] := spells_iff.2 (by decide)
  have hpath₂ : Spells "a.b.0.+018446744073709551615" "a"
      [.key "b", .index 0, .index 0xffffffffffffffff] := spells_iff.2 (by decide)
  have hpath₃ : Spells "a.b.0.18446744073709551616" "a"
      [.key "b", .index 0, .key "18446744073709551616"] := spells_iff.2 (by decide)
  refine ⟨?_, ?_, ?_⟩
  · rw [(exists_insertInWords_iff .noticed sized_empty hpath₁ .null).1]
    decide
  · rw [(exists_insertInWords_iff .wraps sized_empty hpath₂ .null).1]
    decide
  · rw [(exists_insertInWords_iff .wraps sized_empty hpath₃ .null).1]
    decide

end Variables

end GraphQuery
