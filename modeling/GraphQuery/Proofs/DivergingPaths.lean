import GraphQuery.Proofs.Placement
import GraphQuery.Proofs.ValueEquality

/-! # Values at diverging paths

Two paths diverge where they lead to different items of one list, or to different entries of one
object. Values that are put at the ends of such paths do not get into each other's way: in whichever
order they are put there, the variables are equal in the end
(`Variables.equals_insertAtPath_comm`). They need not be the same, for entries of an object that
were not there before come in the order in which they were added. -/

namespace GraphQuery

/-- **Segments that diverge**: after a common beginning they lead to different items of a list, or
to different entries of an object. -/
inductive Diverge : List Segment → List Segment → Prop where
  /-- Different items. -/
  | indices {i j : Nat} {first second : List Segment} (ne : i ≠ j) :
    Diverge (.index i :: first) (.index j :: second)
  /-- Different entries. -/
  | keys {k l : String} {first second : List Segment} (ne : k ≠ l) :
    Diverge (.key k :: first) (.key l :: second)
  /-- A common segment before. -/
  | after (segment : Segment) {first second : List Segment} (later : Diverge first second) :
    Diverge (segment :: first) (segment :: second)

namespace Value

/-! ## Lists and objects with a changed part -/

section

variable {f g : Value → Value} {items : List Value} {entries : Entries Value}

/-- What may be missing can be compared, for null can. -/
theorem comparable_getD {old : Option Value} (h : ∀ part, old = some part → part.Comparable) :
    (old.getD null).Comparable := by
  cases old with
  | none => exact comparable_null
  | some part => exact h part rfl

/-- A list with a changed item can be compared. -/
theorem Comparable.setPadded (h : (list items).Comparable)
    (hf : ∀ part, part.Comparable → (f part).Comparable) (i : Nat) :
    (list (setPadded items i f)).Comparable := by
  rw [comparable_list_iff] at h ⊢
  intro j item hitem
  rw [getElem?_setPadded] at hitem
  by_cases hji : j = i
  · rw [if_pos hji] at hitem
    cases hitem
    exact hf _ (comparable_getD (h i))
  · rw [if_neg hji, Option.or_eq_some_iff] at hitem
    rcases hitem with hold | ⟨-, hpadding⟩
    · exact h j item hold
    · split at hpadding <;> cases hpadding
      exact comparable_null

/-- An object with a changed entry can be compared. -/
theorem Comparable.setEntry (h : (object entries).Comparable)
    (hf : ∀ part, part.Comparable → (f part).Comparable) (k : String) :
    (object (setEntry entries k f)).Comparable := by
  rw [comparable_object_iff] at h ⊢
  obtain ⟨hdistinct, heach⟩ := h
  refine ⟨hdistinct.upsert k _, ?_⟩
  intro key value hvalue
  rw [get?_setEntry] at hvalue
  by_cases hkey : key = k
  · rw [if_pos hkey] at hvalue
    cases hvalue
    exact hf _ (comparable_getD (heach k))
  · rw [if_neg hkey] at hvalue
    exact heach key value hvalue

/-- Lists with an item changed in two ways are equal if both ways give equal values. -/
theorem equals_setPadded (h : (list items).Comparable)
    (hfg : ∀ part, part.Comparable → (f part).equals (g part) = true) (i : Nat) :
    (list (setPadded items i f)).equals (list (setPadded items i g)) = true := by
  rw [comparable_list_iff] at h
  apply equals_list_of_getElem?
  · rw [length_setPadded, length_setPadded]
  · intro j a b ha hb
    rw [getElem?_setPadded] at ha hb
    by_cases hji : j = i
    · rw [if_pos hji] at ha hb
      cases ha
      cases hb
      exact hfg _ (comparable_getD (h i))
    · -- Any other item is the same in both, an old one or null.
      rw [if_neg hji] at ha hb
      cases ha.symm.trans hb
      rcases Option.or_eq_some_iff.1 ha with hold | ⟨-, hpadding⟩
      · exact (h j a hold).equals_self
      · split at hpadding <;> cases hpadding
        rfl

/-- Objects with an entry changed in two ways are equal if both ways give equal values. -/
theorem equals_setEntry (h : (object entries).Comparable)
    (hfg : ∀ part, part.Comparable → (f part).equals (g part) = true) (k : String) :
    (object (setEntry entries k f)).equals (object (setEntry entries k g)) = true := by
  rw [comparable_object_iff] at h
  obtain ⟨hdistinct, heach⟩ := h
  let map : Entries.Map Value := ⟨entries, hdistinct⟩
  apply equals_object_of_get? (map.upsert k _) (map.upsert k _)
  intro key
  change Option.Rel _ (Entries.get? (setEntry entries k f) key)
    (Entries.get? (setEntry entries k g) key)
  rw [get?_setEntry, get?_setEntry]
  by_cases hkey : key = k
  · rw [if_pos hkey, if_pos hkey]
    exact .some (hfg _ (comparable_getD (heach k)))
  · rw [if_neg hkey, if_neg hkey]
    cases hold : Entries.get? entries key with
    | none => exact .none
    | some value => exact .some (heach key value hold).equals_self

/-- **Different items** are changed in either order. -/
theorem setPadded_comm {i j : Nat} (hne : i ≠ j) (items : List Value) (f g : Value → Value) :
    setPadded (setPadded items i f) j g = setPadded (setPadded items j g) i f := by
  have hpadding : ∀ (old : Option Value) (p : Prop) [Decidable p],
      (old.or (if p then some null else none)).getD null = old.getD null := by
    intro old p _
    cases old with
    | none => by_cases hp : p <;> simp [hp]
    | some value => rfl
  apply List.ext_getElem?
  intro m
  simp only [getElem?_setPadded, hne, hne.symm, if_false, hpadding]
  by_cases hi : m = i
  · subst hi
    simp [hne]
  · by_cases hj : m = j
    · subst hj
      simp [hi]
    · -- What is padded for one of them is padded for the other one as well, or else not at all.
      simp only [hi, hj, if_false, Option.or_assoc]
      congr 1
      by_cases hlt : m < i <;> by_cases hlt' : m < j <;> simp [hlt, hlt']

/-- **Different entries** are changed in either order, up to the order of entries. -/
theorem get?_setEntry_comm {k l : String} (hne : k ≠ l) (entries : Entries Value)
    (f g : Value → Value) (key : String) :
    Entries.get? (setEntry (setEntry entries k f) l g) key
      = Entries.get? (setEntry (setEntry entries l g) k f) key := by
  simp only [get?_setEntry, hne, hne.symm, if_false]
  by_cases hk : key = k
  · subst hk
    simp [hne]
  · simp [hk]

end

/-! ## Values with a changed part -/

section

variable {f g : Value → Value} {value : Value}

/-- The items that a value has, if it is a list, can be compared. -/
theorem Comparable.items (h : value.Comparable) : (list (value.list?.getD [])).Comparable := by
  cases value with
  | list items => exact h
  | _ => exact comparable_list_iff.2 nofun

/-- The entries that a value has, if it is an object, can be compared. -/
theorem Comparable.entries (h : value.Comparable) :
    (object (value.object?.getD [])).Comparable := by
  cases value with
  | object entries => exact h
  | _ => exact comparable_object_iff.2 ⟨List.nodup_nil, nofun⟩

/-- **A value with a changed part can be compared** if the change makes what can be compared. -/
theorem Comparable.changePart (h : value.Comparable)
    (hf : ∀ part, part.Comparable → (f part).Comparable) (segment : Segment) :
    (value.changePart f segment).Comparable := by
  cases segment with
  | index i => exact h.items.setPadded hf i
  | key k => exact h.entries.setEntry hf k

/-- **Values with a part changed in two ways** are equal if both ways give equal values. -/
theorem equals_changePart (h : value.Comparable)
    (hfg : ∀ part, part.Comparable → (f part).equals (g part) = true) (segment : Segment) :
    (value.changePart f segment).equals (value.changePart g segment) = true := by
  cases segment with
  | index i => exact equals_setPadded h.items hfg i
  | key k => exact equals_setEntry h.entries hfg k

/-- A value that is put at a place leaves what can be compared. -/
theorem Comparable.assign {new : Value} (hnew : new.Comparable) (segments : List Segment)
    (h : value.Comparable) : (assign new segments value).Comparable := by
  induction segments generalizing value with
  | nil => exact hnew
  | cons segment rest ih =>
    rw [assign_cons]
    exact h.changePart (fun part hpart => ih hpart) segment

end

/-- **Two values at places that diverge** are put there in either order. -/
theorem equals_assign_comm {first second : List Segment} (hdiverge : Diverge first second)
    {a b value : Value} (ha : a.Comparable) (hb : b.Comparable) (h : value.Comparable) :
    (assign b second (assign a first value)).equals (assign a first (assign b second value))
      = true := by
  induction hdiverge generalizing value with
  | @indices i j first second hne =>
    have hsame : assign b (.index j :: second) (assign a (.index i :: first) value)
        = assign a (.index i :: first) (assign b (.index j :: second) value) := by
      simp only [assign_cons]
      exact congrArg list (setPadded_comm hne _ _ _)
    rw [hsame]
    exact (ha.assign _ (hb.assign _ h)).equals_self
  | @keys k l first second hne =>
    have hboth := hb.assign (.key l :: second) (ha.assign (.key k :: first) h)
    let map := h.entries.keyed.map
    simp only [assign_cons] at hboth ⊢
    exact hboth.equals_of_get?_eq ((map.upsert l _).upsert k _) (get?_setEntry_comm hne _ _ _)
  | @after segment first second _ ih =>
    simp only [assign_cons, changePart_changePart]
    exact equals_changePart h (fun part hpart => ih hpart) segment

end Value

namespace Variables

/-- **Variables as a program can hold them**: their entries are a map, and so is every object in
them. -/
abbrev Keyed := {given : Variables // (Value.object given.entries).WellKeyed}

/-- **The order in which values are put at diverging paths does not matter**, as long as the indices
of the paths are below `2 ^ 63` and there is no NaN among the values. The paths lead to different
variables, or to places of one variable that diverge. -/
theorem equals_insertAtPath_comm (given : Keyed) {path₁ path₂ name₁ name₂ : String}
    {segments₁ segments₂ : List Segment} (hpath₁ : Spells path₁ name₁ segments₁)
    (hpath₂ : Spells path₂ name₂ segments₂) (hindex₁ : ∀ i, .index i ∈ segments₁ → i < 2 ^ 63)
    (hindex₂ : ∀ i, .index i ∈ segments₂ → i < 2 ^ 63)
    (hdiverge : name₁ ≠ name₂ ∨ name₁ = name₂ ∧ Diverge segments₁ segments₂)
    (value₁ value₂ : Value.Keyed) (hgiven : (Value.object given.val.entries).NaNFree)
    (hvalue₁ : value₁.val.NaNFree) (hvalue₂ : value₂.val.NaNFree) :
    ∃ after after', ((given.val.insertAtPath path₁ value₁.val).bind fun once =>
        once.insertAtPath path₂ value₂.val) = .ok after
      ∧ ((given.val.insertAtPath path₂ value₂.val).bind fun once =>
        once.insertAtPath path₁ value₁.val) = .ok after'
      ∧ after.equals after' = true := by
  -- Variables are the entries of an object, to which the name of the variable leads.
  have hplaces : Diverge (.key name₁ :: segments₁) (.key name₂ :: segments₂) := by
    rcases hdiverge with hne | ⟨rfl, hlater⟩
    · exact .keys hne
    · exact .after _ hlater
  have hequal := Value.equals_assign_comm hplaces ⟨value₁.property, hvalue₁⟩
    ⟨value₂.property, hvalue₂⟩ ⟨given.property, hgiven⟩
  have hfits₁ := lt_maxIndex hindex₁
  have hfits₂ := lt_maxIndex hindex₂
  refine ⟨_, _, ?_, ?_, hequal⟩
  · rw [insertAtPath_eq hpath₁ hfits₁]
    exact insertAtPath_eq hpath₂ hfits₂ _ value₂.val
  · rw [insertAtPath_eq hpath₂ hfits₂]
    exact insertAtPath_eq hpath₁ hfits₁ _ value₁.val

/-- A variable that is a list of one file, which has a name so far. -/
def ofNamedFile : Variables := ⟨[("files", .list [.object [("name", .string "a")]])]⟩

theorem comparable_ofNamedFile : (Value.object ofNamedFile.entries).Comparable := by
  have hfile : (Value.object [("name", .string "a")]).Comparable :=
    Value.comparable_object (Entries.distinctKeys_singleton _)
      (List.forall_mem_singleton.2 ⟨.string "a", .string "a"⟩)
  have hfiles := Value.comparable_list (List.forall_mem_singleton.2 hfile)
  exact Value.comparable_object (Entries.distinctKeys_singleton _)
    (List.forall_mem_singleton.2 hfiles)

/-- Two new entries of one object, which is missing before, come in one order or the other. -/
theorem equals_insertAtPath_comm_ofNamedFile :
    ∃ after after', ((ofNamedFile.insertAtPath "files.02.size" (.int 4)).bind fun once =>
        once.insertAtPath "variables.files.+2.kind" (.string "b")) = .ok after
      ∧ ((ofNamedFile.insertAtPath "variables.files.+2.kind" (.string "b")).bind fun once =>
        once.insertAtPath "files.02.size" (.int 4)) = .ok after'
      ∧ after.equals after' = true := by
  have hpath₁ : Spells "files.02.size" "files" [.index 2, .key "size"] := spells_iff.2 (by decide)
  have hpath₂ : Spells "variables.files.+2.kind" "files" [.index 2, .key "kind"] :=
    spells_iff.2 (by decide)
  have hindex : ∀ key i, .index i ∈ [Segment.index 2, .key key] → i < 2 ^ 63 := by
    intro key i hi
    obtain rfl : i = 2 := by simpa using hi
    decide
  exact equals_insertAtPath_comm ⟨ofNamedFile, comparable_ofNamedFile.keyed⟩ hpath₁ hpath₂
    (hindex "size") (hindex "kind") (.inr ⟨rfl, .after _ (.keys (by decide))⟩)
    ⟨.int 4, .int 4⟩ ⟨.string "b", .string "b"⟩ comparable_ofNamedFile.numbers (.int 4)
    (.string "b")

end Variables

end GraphQuery
