import GraphQuery.Proofs.ValueEquality
import Mathlib.Data.List.Perm.Subperm
import Mathlib.Logic.Relation

/-! # Equality of values is a partial equivalence

Objects are compared from one side: they are of one size, and each entry of the left one has an
equal one on the right. That is enough to compare them name by name, for there are as many distinct
names on either side (`Value.equals_object_iff`). What equality says about two values is then the
same from both sides, kind by kind (`Value.Alike`), and equality is symmetric and transitive, by
induction on the value on the left. Reflexive it is exactly where there is no NaN, and in that case
the order of entries does not count, however deep in the value an object is
(`Value.equals_partialEquivalence`). -/

namespace GraphQuery

namespace Entries

variable {α : Type u} {as bs : Entries α}

/-- As many entries under some of the names are entries under all of them. -/
theorem DistinctKeys.keys_perm (h : DistinctKeys as) (hsub : keys as ⊆ keys bs)
    (hlength : as.length = bs.length) : (keys as).Perm (keys bs) := by
  have hkeys : (keys bs).length ≤ (keys as).length := by simp [keys, hlength]
  exact (List.subperm_of_subset h hsub).perm_of_length_le hkeys

/-- Names stay distinct in another order. -/
theorem DistinctKeys.perm (h : DistinctKeys as) (hperm : as.Perm bs) : DistinctKeys bs :=
  (hperm.map Prod.fst).nodup_iff.1 h

/-- Where names are distinct, the values under them do not depend on the order. -/
theorem DistinctKeys.get?_perm (h : DistinctKeys as) (hperm : as.Perm bs) (key : String) :
    get? as key = get? bs key := by
  have hbs := h.perm hperm
  ext value
  constructor
  · intro hvalue
    exact hbs.get?_of_mem (hperm.mem_iff.1 (mem_of_get? hvalue))
  · intro hvalue
    exact h.get?_of_mem (hperm.mem_iff.2 (mem_of_get? hvalue))

/-- A value is found among the first entries, or else among the rest. -/
theorem get?_append (as bs : Entries α) (key : String) :
    get? (as ++ bs) key = (get? as key).or (get? bs key) := by
  rw [get?_eq_find?, get?_eq_find?, get?_eq_find?, List.find?_append, Option.map_or]

end Entries

namespace Value

/-! ## Equality from both sides -/

/-- What may be missing is equal if it is missing on both sides, or there and equal on both. -/
abbrev EqualParts : Option Value → Option Value → Prop :=
  Option.Rel fun a b => a.equals b = true

/-- Such parts are missing on both sides or on neither. -/
theorem EqualParts.isSome_eq {x y : Option Value} (h : EqualParts x y) : x.isSome = y.isSome := by
  cases h <;> rfl

/-- Lists are equal exactly if the same indices have equal items. -/
theorem equals_list_iff {as bs : List Value} :
    (list as).equals (list bs) = true ↔ ∀ i : Nat, EqualParts as[i]? bs[i]? := by
  constructor
  · intro h i
    rw [equals, itemsEqual_iff] at h
    induction h generalizing i with
    | nil => exact .none
    | cons hab _ ih =>
      cases i with
      | zero => exact .some hab
      | succ i => exact ih i
  · intro h
    apply equals_list_of_getElem?
    · have hsame : ∀ i, i < as.length ↔ i < bs.length := by
        intro i
        have hi := (h i).isSome_eq
        rwa [Bool.eq_iff_iff, isSome_getElem?, isSome_getElem?] at hi
      have has := hsame as.length
      have hbs := hsame bs.length
      omega
    · intro i a b ha hb
      have hi := h i
      rw [ha, hb] at hi
      cases hi with
      | some hab => exact hab

/-- **Objects are equal exactly if each name has equal values in both**, or in neither. -/
theorem equals_object_iff (as bs : Entries.Map Value) :
    (object as.val).equals (object bs.val) = true
      ↔ ∀ key, EqualParts (Entries.get? as.val key) (Entries.get? bs.val key) := by
  refine ⟨fun h key => ?_, equals_object_of_get? as bs⟩
  rw [equals, Bool.and_eq_true, decide_eq_true_eq, entriesWithin_iff] at h
  obtain ⟨hlength, hwithin⟩ := h
  cases hget : Entries.get? as.val key with
  | some a =>
    obtain ⟨b, hb, hequal⟩ := hwithin _ (Entries.mem_of_get? hget)
    rw [hb]
    exact .some hequal
  | none =>
    -- Every name of the left object is one of the right object, so there are no others.
    have hsub : Entries.keys as.val ⊆ Entries.keys bs.val := by
      intro name hname
      obtain ⟨entry, hentry, rfl⟩ := List.mem_map.1 hname
      obtain ⟨b, hb, -⟩ := hwithin entry hentry
      rw [Entries.mem_keys_iff, hb]
      rfl
    have hkey : key ∉ Entries.keys bs.val := by
      rw [← (as.property.keys_perm hsub hlength).mem_iff, Entries.mem_keys_iff, hget]
      exact Bool.false_ne_true
    rw [Entries.mem_keys_iff, Option.not_isSome_iff_eq_none] at hkey
    rw [hkey]
    exact .none

/-- **One step of a comparison**: what it takes for two values of each kind to be equal. -/
inductive Alike : Value → Value → Prop where
  /-- Null. -/
  | null : Alike .null .null
  /-- The same truth value. -/
  | boolean (value : Bool) : Alike (.boolean value) (.boolean value)
  /-- The same integer. -/
  | int (value : Int64) : Alike (.int value) (.int value)
  /-- Floats that are the same number. -/
  | float {x y : Binary64} (same : x.equals y = true) : Alike (.float x) (.float y)
  /-- The same text. -/
  | string (text : String) : Alike (.string text) (.string text)
  /-- The same bytes. -/
  | bytes (data : List UInt8) : Alike (.bytes data) (.bytes data)
  /-- Lists with equal items. -/
  | list {as bs : List Value} (items : ∀ i : Nat, EqualParts as[i]? bs[i]?) :
    Alike (.list as) (.list bs)
  /-- Objects with equal values under each name. -/
  | object {as bs : Entries Value}
    (values : ∀ key, EqualParts (Entries.get? as key) (Entries.get? bs key)) :
    Alike (.object as) (.object bs)
  /-- Copies of one record. -/
  | record (identity : Nat) (fields copied : List (FieldDescriptor × Value)) :
    Alike (.record identity fields) (.record identity copied)
  /-- Copies of one stream. -/
  | stream (channel : Nat) : Alike (.stream channel) (.stream channel)

/-- **Values are equal exactly if they pass one step of a comparison.** -/
theorem equals_iff_alike {a b : Keyed} : a.val.equals b.val = true ↔ Alike a.val b.val := by
  obtain ⟨a, ha⟩ := a
  obtain ⟨b, hb⟩ := b
  change a.equals b = true ↔ Alike a b
  constructor
  · intro h
    unfold equals at h
    split at h
    · exact .null
    · exact of_decide_eq_true h ▸ .boolean _
    · exact of_decide_eq_true h ▸ .int _
    · exact .float h
    · exact of_decide_eq_true h ▸ .string _
    · exact of_decide_eq_true h ▸ .bytes _
    · exact .list (equals_list_iff.1 h)
    · exact .object ((equals_object_iff ha.map hb.map).1 h)
    · exact of_decide_eq_true h ▸ .record _ _ _
    · exact of_decide_eq_true h ▸ .stream _
    · exact absurd h Bool.false_ne_true
  · intro h
    cases h with
    | null => rfl
    | boolean | int | string | bytes | record | stream => simp [equals]
    | float same => exact same
    | list items => exact equals_list_iff.2 items
    | object values => exact (equals_object_iff ha.map hb.map).2 values

/-! ## Symmetry and transitivity -/

/-- Equal parts are equal the other way round if the values that are there are. -/
theorem EqualParts.symm {x y : Option Value} (h : EqualParts x y)
    (hsymm : ∀ a b, x = some a → y = some b → a.equals b = true → b.equals a = true) :
    EqualParts y x := by
  cases h with
  | none => exact .none
  | some hab => exact .some (hsymm _ _ rfl rfl hab)

/-- Parts that are equal to equal parts are equal if the values that are there are. -/
theorem EqualParts.trans {x y z : Option Value} (hxy : EqualParts x y) (hyz : EqualParts y z)
    (htrans : ∀ a b c, x = some a → y = some b → z = some c → a.equals b = true →
      b.equals c = true → a.equals c = true) : EqualParts x z := by
  cases hxy with
  | none => exact hyz
  | some hab =>
    cases hyz with
    | some hbc => exact .some (htrans _ _ _ rfl rfl rfl hab hbc)

/-- **Equality is symmetric.** -/
theorem equals_symm {a b : Keyed} (h : a.val.equals b.val = true) : b.val.equals a.val = true := by
  -- The induction is on the value on the left; the one on the right is of its kind.
  obtain ⟨a, ha⟩ := a
  obtain ⟨b, hb⟩ := b
  have hleft := ha
  induction ha generalizing b with
  | list _ ih =>
    cases equals_iff_alike.1 h with
    | list items =>
      refine equals_list_iff.2 fun i => (items i).symm ?_
      intro c d hc hd hequal
      exact ih c (List.mem_of_getElem? hc) d (hb.item hd) hequal (hleft.item hc)
  | object _ _ ih =>
    cases equals_iff_alike.1 h with
    | object values =>
      refine (equals_object_iff hb.map hleft.map).2 fun key => (values key).symm ?_
      intro c d hc hd hequal
      exact ih _ (Entries.mem_of_get? hc) d (hb.value hd) hequal (hleft.value hc)
  | float x =>
    cases equals_iff_alike.1 h with
    | float same => exact (Binary64.equals_comm _ _).trans same
  | null | boolean | int | string | bytes | record | stream =>
    cases equals_iff_alike.1 h
    simp [equals]

/-- **Equality is transitive.** -/
theorem equals_trans {a b c : Keyed} (hab : a.val.equals b.val = true)
    (hbc : b.val.equals c.val = true) : a.val.equals c.val = true := by
  obtain ⟨a, ha⟩ := a
  obtain ⟨b, hb⟩ := b
  obtain ⟨c, hc⟩ := c
  have hleft := ha
  induction ha generalizing b c with
  | list _ ih =>
    cases equals_iff_alike.1 hab with
    | list items =>
      cases equals_iff_alike.1 hbc with
      | list items' =>
        refine equals_list_iff.2 fun i => (items i).trans (items' i) ?_
        intro x y z hx hy hz hxy hyz
        exact ih x (List.mem_of_getElem? hx) y (hb.item hy) hxy z (hc.item hz) hyz (hleft.item hx)
  | object _ _ ih =>
    cases equals_iff_alike.1 hab with
    | object values =>
      cases equals_iff_alike.1 hbc with
      | object values' =>
        refine (equals_object_iff hleft.map hc.map).2 fun key =>
          (values key).trans (values' key) ?_
        intro x y z hx hy hz hxy hyz
        exact ih _ (Entries.mem_of_get? hx) y (hb.value hy) hxy z (hc.value hz) hyz
          (hleft.value hx)
  | float x =>
    cases equals_iff_alike.1 hab with
    | float same =>
      cases equals_iff_alike.1 hbc with
      | float same' => exact Binary64.equals_trans same same'
  | null | boolean | int | string | bytes | record | stream =>
    cases equals_iff_alike.1 hab
    cases equals_iff_alike.1 hbc
    simp [equals]

/-! ## Reflexivity -/

/-- A part that is equal to itself is so if it is there. -/
theorem EqualParts.of_self {x : Option Value} (h : EqualParts x x) {value : Value}
    (hvalue : x = some value) : value.equals value = true := by
  subst hvalue
  cases h with
  | some hself => exact hself

/-- **A value is equal to itself exactly if there is no NaN in it**, apart from its records. -/
theorem equals_self_iff (value : Keyed) :
    value.val.equals value.val = true ↔ value.val.NaNFree := by
  refine ⟨fun hself => ?_, fun hnumbers => Comparable.equals_self ⟨value.property, hnumbers⟩⟩
  obtain ⟨value, h⟩ := value
  induction h with
  | float x =>
    have hnumber : x.isNaN = false := by
      simp only [equals, Binary64.equals, Bool.and_eq_true, Bool.not_eq_true'] at hself
      exact hself.1.1
    exact .float hnumber
  | list _ ih =>
    rw [equals_list_iff] at hself
    refine .list fun item hitem => ih item hitem ?_
    obtain ⟨i, hi⟩ := List.mem_iff_getElem?.1 hitem
    exact (hself i).of_self hi
  | object hdistinct _ ih =>
    rw [equals_object_iff ⟨_, hdistinct⟩ ⟨_, hdistinct⟩] at hself
    refine .object fun entry hentry => ih entry hentry ?_
    exact (hself entry.1).of_self (hdistinct.get?_of_mem hentry)
  | null => exact .null
  | boolean value => exact .boolean value
  | int value => exact .int value
  | string text => exact .string text
  | bytes data => exact .bytes data
  | record => exact .record _ _
  | stream channel => exact .stream channel

/-! ## The order of entries -/

/-- **The entries of one object in a value are put into another order.** The object is in lists and
objects only; there are none to be reached in a record. -/
inductive Reorders : Value → Value → Prop where
  /-- The object is the value itself. -/
  | here {as bs : Entries Value} (perm : as.Perm bs) : Reorders (.object as) (.object bs)
  /-- The object is in an item of a list. -/
  | inItem {a b : Value} (before after : List Value) (inside : Reorders a b) :
    Reorders (.list (before ++ a :: after)) (.list (before ++ b :: after))
  /-- The object is in the value of an entry. -/
  | inEntry {a b : Value} (before : Entries Value) (key : String) (after : Entries Value)
    (inside : Reorders a b) :
    Reorders (.object (before ++ (key, a) :: after)) (.object (before ++ (key, b) :: after))

section

variable {a b : Value} {before after : List Value} {key : String} {first last : Entries Value}

/-- A list can be compared if an item can and all others can. -/
theorem comparable_list_append : (list (before ++ a :: after)).Comparable
    ↔ a.Comparable ∧ ∀ item ∈ before ++ after, item.Comparable := by
  have hmem : (list (before ++ a :: after)).Comparable
      ↔ ∀ item ∈ before ++ a :: after, item.Comparable := by
    refine ⟨fun h item hitem => ?_, comparable_list⟩
    obtain ⟨i, hi⟩ := List.mem_iff_getElem?.1 hitem
    exact comparable_list_iff.1 h i item hi
  rw [hmem, List.forall_mem_append, List.forall_mem_cons, List.forall_mem_append]
  exact and_left_comm

/-- An object can be compared if its keys are distinct, the value of an entry can be compared and
those of all others can. -/
theorem comparable_object_append : (object (first ++ (key, a) :: last)).Comparable
    ↔ (Entries.keys first ++ key :: Entries.keys last).Nodup
      ∧ a.Comparable ∧ ∀ entry ∈ first ++ last, entry.2.Comparable := by
  have hkeys : Entries.DistinctKeys (first ++ (key, a) :: last)
      ↔ (Entries.keys first ++ key :: Entries.keys last).Nodup := by
    rw [Entries.DistinctKeys, Entries.keys_append, Entries.keys_cons]
  have hmem : (object (first ++ (key, a) :: last)).Comparable
      ↔ Entries.DistinctKeys (first ++ (key, a) :: last)
        ∧ ∀ entry ∈ first ++ (key, a) :: last, entry.2.Comparable := by
    refine ⟨fun h => ?_, fun h => comparable_object h.1 h.2⟩
    obtain ⟨hdistinct, heach⟩ := comparable_object_iff.1 h
    exact ⟨hdistinct, fun entry hentry => heach _ _ (hdistinct.get?_of_mem hentry)⟩
  rw [hmem, hkeys, List.forall_mem_append, List.forall_mem_cons, List.forall_mem_append]
  exact and_congr_right fun _ => and_left_comm

/-- Lists are equal if one item is equal to the one in its place and all others can be compared. -/
theorem equals_list_append (hab : a.equals b = true)
    (hothers : ∀ item ∈ before ++ after, item.Comparable) :
    (list (before ++ a :: after)).equals (list (before ++ b :: after)) = true := by
  have hself : ∀ items ⊆ before ++ after,
      List.Forall₂ (fun c d => Value.equals c d = true) items items := by
    intro items hitems
    rw [List.forall₂_same]
    exact fun item hitem => (hothers item (hitems hitem)).equals_self
  rw [equals, itemsEqual_iff]
  exact List.rel_append (hself before (List.subset_append_left _ _))
    (.cons hab (hself after (List.subset_append_right _ _)))

/-- Objects are equal if one value is equal to the one in its place and all others can be
compared. -/
theorem equals_object_append (hkeys : (Entries.keys first ++ key :: Entries.keys last).Nodup)
    (hab : a.equals b = true) (hothers : ∀ entry ∈ first ++ last, entry.2.Comparable) :
    (object (first ++ (key, a) :: last)).equals (object (first ++ (key, b) :: last)) = true := by
  have hdistinct : ∀ value, Entries.DistinctKeys (first ++ (key, value) :: last) := by
    intro value
    rwa [Entries.DistinctKeys, Entries.keys_append, Entries.keys_cons]
  have hself : ∀ entries ⊆ first ++ last, ∀ name value, Entries.get? entries name = some value →
      value.equals value = true := by
    intro entries hentries name value hvalue
    exact (hothers _ (hentries (Entries.mem_of_get? hvalue))).equals_self
  apply equals_object_of_get? ⟨_, hdistinct a⟩ ⟨_, hdistinct b⟩
  intro name
  rw [Entries.get?_append, Entries.get?_append, Entries.get?_cons, Entries.get?_cons]
  -- The name is one of the first entries, or else that of the changed one, or one of the last.
  cases hfirst : Entries.get? first name with
  | some value => exact .some (hself first (List.subset_append_left _ _) name value hfirst)
  | none =>
    rw [Option.none_or, Option.none_or]
    by_cases hname : key = name
    · rw [if_pos hname, if_pos hname]
      exact .some hab
    · rw [if_neg hname, if_neg hname]
      cases hlast : Entries.get? last name with
      | some value => exact .some (hself last (List.subset_append_right _ _) name value hlast)
      | none => exact .none

end

/-- A reordered value can be compared if the value can. -/
theorem Reorders.comparable {a b : Value} (h : Reorders a b) (ha : a.Comparable) :
    b.Comparable := by
  induction h with
  | here perm =>
    obtain ⟨hdistinct, heach⟩ := comparable_object_iff.1 ha
    refine comparable_object_iff.2 ⟨hdistinct.perm perm, ?_⟩
    intro key value hvalue
    rw [← hdistinct.get?_perm perm] at hvalue
    exact heach key value hvalue
  | inItem before after _ ih =>
    rw [comparable_list_append] at ha ⊢
    exact ha.imp_left ih
  | inEntry before key after _ ih =>
    rw [comparable_object_append] at ha ⊢
    exact ha.imp_right (And.imp_left ih)

/-- **Reordering one object** gives an equal value, if there is no NaN. -/
theorem Reorders.equals {a b : Value} (h : Reorders a b) (ha : a.Comparable) :
    a.equals b = true := by
  induction h with
  | here perm =>
    obtain ⟨hdistinct, -⟩ := comparable_object_iff.1 ha
    exact ha.equals_of_get?_eq ⟨_, hdistinct.perm perm⟩ (hdistinct.get?_perm perm)
  | inItem before after _ ih =>
    obtain ⟨hinside, hothers⟩ := comparable_list_append.1 ha
    exact equals_list_append (ih hinside) hothers
  | inEntry before key after _ ih =>
    obtain ⟨hkeys, hinside, hothers⟩ := comparable_object_append.1 ha
    exact equals_object_append hkeys (ih hinside) hothers

/-- **Reordering any number of objects**, one after the other, gives an equal value, which can still
be compared. -/
theorem equals_of_reorders {a b : Value} (h : Relation.ReflTransGen Reorders a b)
    (ha : a.Comparable) : a.equals b = true ∧ b.Comparable := by
  induction h with
  | refl => exact ⟨ha.equals_self, ha⟩
  | tail _ hlast ih =>
    obtain ⟨hequal, hb⟩ := ih
    have hc := hlast.comparable hb
    refine ⟨?_, hc⟩
    exact equals_trans (a := ⟨_, ha.keyed⟩) (b := ⟨_, hb.keyed⟩) (c := ⟨_, hc.keyed⟩) hequal
      (hlast.equals hb)

/-! ## Identity -/

/-- **What is compared by identity**: a record or the source of a stream, each by the identity that
all its copies share. -/
inductive Identity where
  /-- The identity of a record. -/
  | record (identity : Nat)
  /-- The channel of a stream. -/
  | stream (channel : Nat)
deriving DecidableEq

/-- The identity of a record or a stream; no other value has one. -/
def identity? : Value → Option Identity
  | record identity _ => some (.record identity)
  | stream channel => some (.stream channel)
  | _ => none

/-- **A value with an identity is equal exactly to the values of the same identity**, which are its
copies. -/
theorem equals_iff_identity?_eq {a b : Value} (h : a.identity?.isSome ∨ b.identity?.isSome) :
    a.equals b = true ↔ a.identity? = b.identity? := by
  cases a <;> cases b <;> simp_all [equals, identity?]

/-- **Equality of values is a partial equivalence** that does not see the order of entries. It is
symmetric and transitive; it is reflexive exactly where there is no NaN outside of records; such a
value stays equal when objects inside it are reordered; and records and streams are equal to their
own copies only. -/
theorem equals_partialEquivalence (a b c : Keyed) :
    (a.val.equals b.val = true → b.val.equals a.val = true)
    ∧ (a.val.equals b.val = true → b.val.equals c.val = true → a.val.equals c.val = true)
    ∧ (a.val.equals a.val = true ↔ a.val.NaNFree)
    ∧ (∀ reordered, a.val.NaNFree → Relation.ReflTransGen Reorders a.val reordered →
      a.val.equals reordered = true)
    ∧ (a.val.identity?.isSome ∨ b.val.identity?.isSome →
      (a.val.equals b.val = true ↔ a.val.identity? = b.val.identity?)) := by
  refine ⟨equals_symm, equals_trans, equals_self_iff a, ?_, equals_iff_identity?_eq⟩
  intro reordered hnumbers hreorders
  exact (equals_of_reorders hreorders ⟨a.property, hnumbers⟩).1

/-- An object that holds a zero with a sign, and a list of an object and a record; the record has a
field that is no number. -/
def shelf : Value :=
  object [("books", list [object [("title", string "a"), ("pages", int 7)],
      record 0 [(⟨"weight", none⟩, float ⟨0x7ff8000000000000⟩)]]),
    ("height", float ⟨0x8000000000000000⟩)]

/-- The same with the entries of both objects in another order. -/
def reorderedShelf : Value :=
  object [("height", float ⟨0x8000000000000000⟩),
    ("books", list [object [("pages", int 7), ("title", string "a")],
      record 0 [(⟨"weight", none⟩, float ⟨0x7ff8000000000000⟩)]])]

theorem comparable_shelf : shelf.Comparable := by
  have hbook : (object [("title", string "a"), ("pages", int 7)]).Comparable :=
    comparable_object (by simp [Entries.DistinctKeys]) (List.forall_mem_cons.2
      ⟨⟨.string _, .string _⟩, List.forall_mem_singleton.2 ⟨.int _, .int _⟩⟩)
  have hrecord : (record 0 [(⟨"weight", none⟩, float ⟨0x7ff8000000000000⟩)]).Comparable :=
    ⟨.record (List.forall_mem_singleton.2 (.float _)), .record _ _⟩
  have hbooks := comparable_list (List.forall_mem_cons.2
    ⟨hbook, List.forall_mem_singleton.2 hrecord⟩)
  have hheight : (float ⟨0x8000000000000000⟩).Comparable := ⟨.float _, .float (by decide)⟩
  exact comparable_object (by simp [Entries.DistinctKeys]) (List.forall_mem_cons.2
    ⟨hbooks, List.forall_mem_singleton.2 hheight⟩)

theorem reorders_shelf : Relation.ReflTransGen Reorders shelf reorderedShelf := by
  refine .tail (.single ?_) (.here (.swap _ _ _))
  exact .inEntry [] "books" _ (.inItem [] _ (.here (.swap _ _ _)))

/-- The order of entries is not seen, and what is in the record is not either. -/
theorem equals_reorderedShelf :
    shelf.equals reorderedShelf = true ∧ reorderedShelf.equals shelf = true := by
  have hkeyed := comparable_shelf.keyed
  have hkeyed' := (equals_of_reorders reorders_shelf comparable_shelf).2.keyed
  obtain ⟨hsymm, -, -, hreorders, -⟩ :=
    equals_partialEquivalence ⟨shelf, hkeyed⟩ ⟨reorderedShelf, hkeyed'⟩ ⟨shelf, hkeyed⟩
  have hequal := hreorders reorderedShelf comparable_shelf.numbers reorders_shelf
  exact ⟨hequal, hsymm hequal⟩

end Value

end GraphQuery
