import GraphQuery.Entries
import Mathlib.Data.List.Basic
import Mathlib.Data.List.Induction
import Mathlib.Data.List.Perm.Subperm

/-! # What a sequence of writes leaves

`Entries.ofPairs` writes pairs one after the other. What it leaves can be read off the pairs
without going through the writes: `Entries.lastWrites` takes each name where it first appears, with
the value it is given last. -/

namespace GraphQuery.Entries

variable {α : Type u}

/-- The pair that gives a name its last value. -/
def lastWrite? (pairs : List (String × α)) (key : String) : Option (String × α) :=
  pairs.reverse.find? fun pair => pair.1 = key

/-- **What a sequence of writes leaves**: each name where it first appears, with its last value. -/
def lastWrites (pairs : List (String × α)) : Entries α :=
  (keys pairs).eraseDups.filterMap (lastWrite? pairs)

/-! ## Entries are known by their names and values -/

@[simp] theorem keys_append (as bs : Entries α) : keys (as ++ bs) = keys as ++ keys bs :=
  List.map_append

/-- The value under a name is that of the first entry of that name. -/
theorem get?_eq_find? (entries : Entries α) (key : String) :
    get? entries key = (entries.find? fun entry => entry.1 = key).map Prod.snd := by
  induction entries with
  | nil => rfl
  | cons entry rest ih =>
    obtain ⟨k, v⟩ := entry
    rw [get?_cons, List.find?_cons, ih]
    by_cases hk : k = key <;> simp [hk]

/-- A name is there if it has a value. -/
theorem mem_keys_iff {entries : Entries α} {key : String} :
    key ∈ keys entries ↔ (get? entries key).isSome := by
  induction entries with
  | nil => simp
  | cons entry rest ih =>
    obtain ⟨k, v⟩ := entry
    rw [keys_cons, get?_cons, List.mem_cons, ih]
    by_cases hk : k = key
    · simp [hk]
    · simp [hk, Ne.symm hk]

theorem distinctKeys_singleton (entry : String × α) : DistinctKeys [entry] :=
  List.pairwise_singleton _ _

/-- The value under a name is that of an entry. -/
theorem mem_of_get? {entries : Entries α} {key : String} {value : α}
    (h : get? entries key = some value) : (key, value) ∈ entries := by
  rw [get?_eq_find?] at h
  obtain ⟨⟨k, v⟩, hfound, rfl⟩ := Option.map_eq_some_iff.1 h
  obtain rfl : k = key := by simpa using List.find?_some hfound
  exact List.mem_of_find?_eq_some hfound

/-- Where names are distinct, every entry gives the value under its name. -/
theorem DistinctKeys.get?_of_mem {entries : Entries α} (h : DistinctKeys entries)
    {entry : String × α} (hentry : entry ∈ entries) : get? entries entry.1 = some entry.2 := by
  induction entries with
  | nil => cases hentry
  | cons first rest ih =>
    obtain ⟨k, v⟩ := first
    obtain ⟨hk, hrest⟩ := List.nodup_cons.1 h
    rcases List.mem_cons.1 hentry with rfl | hlater
    · rw [get?_cons, if_pos rfl]
    · have hne : k ≠ entry.1 := by
        rintro rfl
        have hagain : entry.1 ∈ keys rest := List.mem_map_of_mem hlater
        exact hk hagain
      rw [get?_cons, if_neg hne, ih hrest hlater]

/-- **A map**: entries that carry each name once. -/
abbrev Map (α : Type u) := {entries : Entries α // DistinctKeys entries}

/-- The map with the value under a name changed, or added at the end. -/
def Map.upsert (map : Map α) (key : String) (f : Option α → α) : Map α :=
  ⟨Entries.upsert key f map.val, map.property.upsert key f⟩

/-- There are as many entries as names, so that the same names make the same number of entries. -/
theorem Map.length_eq {β : Type v} (as : Map α) (bs : Map β)
    (h : ∀ key, (get? as.val key).isSome = (get? bs.val key).isSome) :
    as.val.length = bs.val.length := by
  have hsame : ∀ key, key ∈ keys as.val ↔ key ∈ keys bs.val := by
    intro key
    rw [mem_keys_iff, mem_keys_iff, h]
  simpa [keys] using ((List.perm_ext_iff_of_nodup as.property bs.property).2 hsame).length_eq

/-- Entries whose names are distinct are their names in order, each with its value. -/
theorem DistinctKeys.eq_filterMap {entries : Entries α} (h : DistinctKeys entries) :
    entries = (keys entries).filterMap fun key => (get? entries key).map fun v => (key, v) := by
  induction entries with
  | nil => rfl
  | cons entry rest ih =>
    obtain ⟨k, v⟩ := entry
    obtain ⟨hk, hrest⟩ := List.nodup_cons.1 h
    -- The first name does not come again, so it hides no value of the rest.
    have hsame : ∀ key ∈ keys rest, get? ((k, v) :: rest) key = get? rest key := by
      intro key hkey
      rw [get?_cons, if_neg]
      rintro rfl
      exact hk hkey
    rw [keys_cons, List.filterMap_cons, get?_cons, if_pos rfl]
    show (k, v) :: rest = (k, v) :: _
    congr 1
    refine (ih hrest).trans (List.filterMap_congr fun key hkey => ?_)
    rw [hsame key hkey]

/-! ## The writes one by one -/

@[simp] theorem ofPairs_nil : ofPairs ([] : List (String × α)) = [] := rfl

/-- Writing one more pair. -/
theorem ofPairs_concat (pairs : List (String × α)) (key : String) (value : α) :
    ofPairs (pairs ++ [(key, value)]) = insert (ofPairs pairs) key value := by
  rw [ofPairs, insertAll, List.foldl_append]
  rfl

/-- The names that are left are those written, where they first appear. -/
theorem keys_ofPairs (pairs : List (String × α)) :
    keys (ofPairs pairs) = (keys pairs).eraseDups := by
  induction pairs using List.reverseRecOn with
  | nil => rfl
  | append_singleton pairs pair ih =>
    obtain ⟨key, value⟩ := pair
    have hkeys : keys (pairs ++ [(key, value)]) = keys pairs ++ [key] := by simp
    rw [ofPairs_concat, insert, keys_upsert, ih, hkeys, List.eraseDups_append]
    -- A name that was written before keeps its place; a new one goes to the end.
    by_cases hmem : key ∈ keys pairs
    · rw [if_pos (List.mem_eraseDups.2 hmem)]
      simp [List.removeAll, hmem]
    · rw [if_neg (fun h => hmem (List.mem_eraseDups.1 h))]
      simp [List.removeAll, hmem, List.eraseDups_cons]

/-- As many entries are left as there are names. -/
theorem length_ofPairs (pairs : List (String × α)) :
    (ofPairs pairs).length = (keys pairs).eraseDups.length := by
  rw [← keys_ofPairs, keys, List.length_map]

/-- Writing leaves each name once. -/
theorem distinctKeys_ofPairs (pairs : List (String × α)) : DistinctKeys (ofPairs pairs) := by
  induction pairs using List.reverseRecOn with
  | nil => exact List.nodup_nil
  | append_singleton pairs pair ih =>
    obtain ⟨key, value⟩ := pair
    rw [ofPairs_concat]
    exact ih.upsert key _

/-- A name has the value that it was given last. -/
theorem get?_ofPairs (pairs : List (String × α)) (key : String) :
    get? (ofPairs pairs) key = (lastWrite? pairs key).map Prod.snd := by
  induction pairs using List.reverseRecOn with
  | nil => rfl
  | append_singleton pairs pair ih =>
    obtain ⟨k, value⟩ := pair
    rw [ofPairs_concat, insert, lastWrite?, List.reverse_append]
    by_cases hk : k = key
    · subst hk
      simp
    · rw [get?_upsert_of_ne _ _ hk, ih]
      simp [lastWrite?, hk]

/-- A last write carries the name that was asked for. -/
theorem fst_of_lastWrite? {pairs : List (String × α)} {key : String} {pair : String × α}
    (h : lastWrite? pairs key = some pair) : pair.1 = key := by
  simpa using List.find?_some h

/-- **Writing pairs one after the other** leaves each name where it first appears, with the value
it was given last. -/
theorem ofPairs_eq_lastWrites (pairs : List (String × α)) : ofPairs pairs = lastWrites pairs := by
  rw [(distinctKeys_ofPairs pairs).eq_filterMap, keys_ofPairs, lastWrites]
  congr 1
  funext key
  rw [get?_ofPairs]
  cases h : lastWrite? pairs key with
  | none => rfl
  | some pair => rw [← fst_of_lastWrite? h]; rfl

/-- A new name goes to the end. -/
theorem insert_of_notMem {entries : Entries α} {key : String} (h : key ∉ keys entries) (value : α) :
    insert entries key value = entries ++ [(key, value)] := by
  unfold insert
  induction entries with
  | nil => rfl
  | cons entry rest ih =>
    obtain ⟨k, v⟩ := entry
    rw [keys_cons, List.mem_cons, not_or] at h
    rw [upsert, if_neg (Ne.symm h.1), ih h.2]
    rfl

/-- Writing names that are all different leaves them as they are. -/
theorem DistinctKeys.ofPairs_eq {pairs : List (String × α)} (h : DistinctKeys pairs) :
    ofPairs pairs = pairs := by
  induction pairs using List.reverseRecOn with
  | nil => rfl
  | append_singleton pairs pair ih =>
    obtain ⟨key, value⟩ := pair
    rw [DistinctKeys, keys_append, List.nodup_append] at h
    obtain ⟨hpairs, -, hnew⟩ := h
    have hkey : key ∉ keys pairs := fun hmem => hnew key hmem key (by simp) rfl
    rw [ofPairs_concat, ih hpairs, insert_of_notMem hkey]

/-! ## Nothing is left that was not written -/

/-- Writing a pair leaves no more than the entries there were and the pair. -/
theorem insert_subperm (entries : Entries α) (key : String) (value : α) :
    List.Subperm (insert entries key value) ((key, value) :: entries) := by
  unfold insert
  induction entries with
  | nil => exact List.Subperm.refl _
  | cons entry rest ih =>
    obtain ⟨k, v⟩ := entry
    rw [upsert]
    split
    · next hk =>
      subst hk
      exact (List.Sublist.cons_cons _ (List.sublist_cons_self _ rest)).subperm
    · exact ((List.subperm_cons (k, v)).2 ih).trans (List.Perm.swap _ _ rest).subperm

/-- **What is left after writing pairs** are some of the pairs. -/
theorem ofPairs_subperm (pairs : List (String × α)) : List.Subperm (ofPairs pairs) pairs := by
  induction pairs using List.reverseRecOn with
  | nil => exact List.Subperm.refl _
  | append_singleton pairs pair ih =>
    obtain ⟨key, value⟩ := pair
    rw [ofPairs_concat]
    exact ((insert_subperm _ key value).trans ((List.subperm_cons (key, value)).2 ih)).trans
      (List.perm_append_singleton _ pairs).symm.subperm

end GraphQuery.Entries
