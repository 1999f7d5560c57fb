/-! # Ordered entries

`Entries α` is a list of named values in which order shows: objects, arguments and variables
are printed in the order in which their names first appeared. Writing to a name that is there
already keeps its **first position** and takes the **last value**, and a name that is new goes
to the end. -/

namespace GraphQuery

/-- **Ordered entries**: named values in the order of their names' first appearance. -/
abbrev Entries (α : Type u) := List (String × α)

namespace Entries

variable {α : Type u}

/-- The names, in order. -/
def keys (entries : Entries α) : List String := entries.map Prod.fst

/-- The entries of a well-formed map carry each name once. -/
def DistinctKeys (entries : Entries α) : Prop := (keys entries).Nodup

/-- The value under a name: the first one, should the name repeat. -/
def get? : Entries α → String → Option α
  | [], _ => none
  | (k, v) :: rest, key => if k = key then some v else get? rest key

/-- Whether a name has a value. -/
def contains (entries : Entries α) (key : String) : Bool := (get? entries key).isSome

/-- Changes the value under a name in place, or adds the name at the end; `f` is given the
value that was there. -/
def upsert (key : String) (f : Option α → α) : Entries α → Entries α
  | [] => [(key, f none)]
  | (k, v) :: rest => if k = key then (k, f (some v)) :: rest else (k, v) :: upsert key f rest

/-- Puts a value under a name: the first position stays, the last value wins. -/
def insert (entries : Entries α) (key : String) (value : α) : Entries α :=
  upsert key (fun _ => value) entries

/-- The map that arises by inserting pairs one after the other into `entries`. -/
def insertAll (entries : Entries α) (pairs : List (String × α)) : Entries α :=
  pairs.foldl (fun acc pair => insert acc pair.1 pair.2) entries

/-- The map of a list of pairs, names possibly repeated. -/
def ofPairs (pairs : List (String × α)) : Entries α := insertAll [] pairs

@[simp] theorem get?_nil (key : String) : get? ([] : Entries α) key = none := rfl

@[simp] theorem get?_cons (k : String) (v : α) (rest : Entries α) (key : String) :
    get? ((k, v) :: rest) key = if k = key then some v else get? rest key := rfl

/-- The name that was written to reads as the new value. -/
@[simp] theorem get?_upsert_self (entries : Entries α) (key : String) (f : Option α → α) :
    get? (upsert key f entries) key = some (f (get? entries key)) := by
  induction entries with
  | nil => simp [upsert]
  | cons entry rest ih =>
    obtain ⟨k, v⟩ := entry
    by_cases h : k = key <;> simp [upsert, h, ih]

/-- Every other name reads as before. -/
theorem get?_upsert_of_ne (entries : Entries α) {key other : String} (f : Option α → α)
    (h : key ≠ other) : get? (upsert key f entries) other = get? entries other := by
  induction entries with
  | nil => simp [upsert, h]
  | cons entry rest ih =>
    obtain ⟨k, v⟩ := entry
    by_cases hk : k = key
    · subst hk; simp [upsert, h]
    · simp [upsert, hk, ih]

@[simp] theorem keys_nil : keys ([] : Entries α) = [] := rfl

@[simp] theorem keys_cons (k : String) (v : α) (rest : Entries α) :
    keys ((k, v) :: rest) = k :: keys rest := rfl

/-- Writing to a name that is there leaves the names alone; a new name goes to the end. -/
theorem keys_upsert (entries : Entries α) (key : String) (f : Option α → α) :
    keys (upsert key f entries)
      = if key ∈ keys entries then keys entries else keys entries ++ [key] := by
  induction entries with
  | nil => simp [upsert]
  | cons entry rest ih =>
    obtain ⟨k, v⟩ := entry
    by_cases hk : k = key
    · simp [upsert, hk]
    · have hk' : key ≠ k := fun h => hk h.symm
      by_cases hm : key ∈ keys rest <;> simp [upsert, hk, hk', ih, hm]

/-- Writing keeps names distinct. -/
theorem DistinctKeys.upsert {entries : Entries α} (h : DistinctKeys entries) (key : String)
    (f : Option α → α) : DistinctKeys (Entries.upsert key f entries) := by
  unfold DistinctKeys at *
  rw [keys_upsert]
  split
  · exact h
  · next hm =>
    refine List.nodup_append.2 ⟨h, by simp, fun a ha b hb e => hm ?_⟩
    rw [← List.mem_singleton.1 hb, ← e]
    exact ha

end Entries

end GraphQuery
