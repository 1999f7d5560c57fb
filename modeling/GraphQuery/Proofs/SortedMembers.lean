import GraphQuery.Json
import GraphQuery.Proofs.Entries

/-! # Sorted members

The members of a JSON object as a map, which `Json.sortedMembers` makes of them, come in the order
of their names. That order is all in which they differ from `Entries.ofPairs`: there are as many of
them, and each name has the same value. -/

namespace GraphQuery.Json

open Entries

variable {α : Type u} {name : String} {value : α} {members : List (String × α)}

/-- **Names ascend**, and no name comes twice. -/
def Ascends (members : List (String × α)) : Prop := members.Pairwise fun a b => a.1 < b.1

theorem Ascends.distinctKeys (h : Ascends members) : DistinctKeys members := by
  refine List.pairwise_map.2 (h.imp fun hlt heq => ?_)
  rw [heq] at hlt
  exact String.lt_irrefl _ hlt

/-! ## One member more -/

theorem mem_insertSorted {member : String × α} (h : member ∈ insertSorted name value members) :
    member = (name, value) ∨ member ∈ members := by
  induction members with
  | nil => exact .inl (List.mem_singleton.1 h)
  | cons first rest ih =>
    rw [insertSorted] at h
    split at h
    · rcases List.mem_cons.1 h with rfl | hrest
      · exact .inl rfl
      · exact .inr (List.mem_cons_of_mem _ hrest)
    · split at h
      · rcases List.mem_cons.1 h with rfl | hold
        · exact .inl rfl
        · exact .inr hold
      · rcases List.mem_cons.1 h with rfl | hrest
        · exact .inr List.mem_cons_self
        · exact (ih hrest).imp_right (List.mem_cons_of_mem _)

/-- **Names still ascend** with one member more. -/
theorem Ascends.insertSorted (h : Ascends members) : Ascends (insertSorted name value members) := by
  induction members with
  | nil => exact List.pairwise_singleton _ _
  | cons first rest ih =>
    obtain ⟨n, v⟩ := first
    obtain ⟨hfirst, hrest⟩ := List.pairwise_cons.1 h
    rw [Json.insertSorted]
    -- The name is that of the first member, comes before it, or comes after it.
    by_cases hsame : n = name
    · subst hsame
      rw [if_pos rfl]
      exact List.pairwise_cons.2 ⟨hfirst, hrest⟩
    · rw [if_neg hsame]
      by_cases hlt : name < n
      · rw [if_pos (by simpa [bytesLt] using hlt)]
        refine List.pairwise_cons.2 ⟨fun member hmember => ?_, h⟩
        rcases List.mem_cons.1 hmember with rfl | hlater
        · exact hlt
        · exact String.lt_trans hlt (hfirst member hlater)
      · rw [if_neg (by simpa [bytesLt] using hlt)]
        have hgt : n < name := by
          by_contra hnot
          exact hsame (String.le_antisymm (String.not_lt.1 hlt) (String.not_lt.1 hnot))
        refine List.pairwise_cons.2 ⟨fun member hmember => ?_, ih hrest⟩
        rcases mem_insertSorted hmember with rfl | hlater
        · exact hgt
        · exact hfirst member hlater

/-- The name that was written to has the new value. -/
theorem get?_insertSorted_self : get? (insertSorted name value members) name = some value := by
  induction members with
  | nil => simp [insertSorted]
  | cons first rest ih =>
    obtain ⟨n, v⟩ := first
    rw [insertSorted]
    by_cases hsame : n = name
    · simp [hsame]
    · rw [if_neg hsame]
      split
      · simp
      · rw [get?_cons, if_neg hsame, ih]

/-- Every other name has the value it had. -/
theorem get?_insertSorted_of_ne {other : String} (h : name ≠ other) :
    get? (insertSorted name value members) other = get? members other := by
  induction members with
  | nil => simp [insertSorted, h]
  | cons first rest ih =>
    obtain ⟨n, v⟩ := first
    rw [insertSorted]
    by_cases hsame : n = name
    · subst hsame
      simp [h]
    · rw [if_neg hsame]
      split
      · rw [get?_cons, if_neg h]
      · rw [get?_cons, get?_cons, ih]

/-! ## All members -/

theorem sortedMembers_concat (members : List (String × α)) (name : String) (value : α) :
    sortedMembers (members ++ [(name, value)])
      = insertSorted name value (sortedMembers members) := by
  rw [sortedMembers, List.foldl_append]
  rfl

theorem mem_of_mem_sortedMembers {member : String × α} (h : member ∈ sortedMembers members) :
    member ∈ members := by
  induction members using List.reverseRecOn with
  | nil => exact h
  | append_singleton members last ih =>
    obtain ⟨name, value⟩ := last
    rw [sortedMembers_concat] at h
    rcases mem_insertSorted h with rfl | hold
    · exact List.mem_append_right _ List.mem_cons_self
    · exact List.mem_append_left _ (ih hold)

/-- **Sorted members are sorted.** -/
theorem ascends_sortedMembers (members : List (String × α)) : Ascends (sortedMembers members) := by
  induction members using List.reverseRecOn with
  | nil => exact List.Pairwise.nil
  | append_singleton members member ih =>
    obtain ⟨name, value⟩ := member
    rw [sortedMembers_concat]
    exact ih.insertSorted

/-- **A name has the same value** in either order. -/
theorem get?_sortedMembers (members : List (String × α)) (key : String) :
    get? (sortedMembers members) key = get? (ofPairs members) key := by
  induction members using List.reverseRecOn with
  | nil => rfl
  | append_singleton members member ih =>
    obtain ⟨name, value⟩ := member
    rw [sortedMembers_concat, ofPairs_concat, Entries.insert]
    by_cases hkey : name = key
    · subst hkey
      rw [get?_insertSorted_self, get?_upsert_self]
    · rw [get?_insertSorted_of_ne hkey, get?_upsert_of_ne _ _ hkey, ih]

/-- **There are as many members** in either order. -/
theorem length_sortedMembers (members : List (String × α)) :
    (sortedMembers members).length = (ofPairs members).length := by
  apply Map.length_eq ⟨_, (ascends_sortedMembers members).distinctKeys⟩
    ⟨_, distinctKeys_ofPairs members⟩
  intro key
  rw [get?_sortedMembers]

end GraphQuery.Json
