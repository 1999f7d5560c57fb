import GraphQuery.Variables
import GraphQuery.Proofs.Entries
import Mathlib.Algebra.Group.Nat.Defs

/-! # Values at paths

A path is the name of a variable and segments after it, each of which leads from a container to one
of its parts. Putting a value at a path changes one part of each container on the way
(`Value.changePart`), and all its other parts stay what and where they are (`Value.Keeps`). The
value is then found at the path, and a second one takes its place
(`Variables.exists_insertAtPath`). -/

namespace GraphQuery

/-! ## The spelling of a path -/

/-- The stretches between dots are those that a list is split into. -/
theorem splitDots_eq_splitOn (cs : List Char) : splitDots cs = cs.splitOn '.' := by
  induction cs with
  | nil => rfl
  | cons c cs ih =>
    rw [splitDots, ih, List.splitOn_eq_splitOnP, List.splitOn_eq_splitOnP,
      List.splitOnP_cons_eq_if_modifyHead]
    by_cases hdot : c = '.'
    · simp [hdot]
    · simp only [hdot, if_false, beq_iff_eq]
      -- There is at least one stretch, to which the character is added.
      cases hparts : List.splitOnP (· == '.') cs with
      | nil => exact absurd hparts (List.splitOnP_ne_nil _ _)
      | cons first rest => rfl

/-- There is no dot in a stretch between dots. -/
theorem notMem_of_mem_splitDots {cs text : List Char} (h : text ∈ splitDots cs) : '.' ∉ text := by
  induction cs generalizing text with
  | nil =>
    obtain rfl : text = [] := List.mem_singleton.1 h
    exact List.not_mem_nil
  | cons c cs ih =>
    rw [splitDots] at h
    by_cases hdot : c = '.'
    · rw [if_pos hdot] at h
      rcases List.mem_cons.1 h with rfl | hlater
      · exact List.not_mem_nil
      · exact ih hlater
    · rw [if_neg hdot] at h
      split at h
      · obtain rfl : text = [c] := List.mem_singleton.1 h
        simpa [eq_comm] using hdot
      · next first rest hsplit =>
        rw [hsplit] at ih
        rcases List.mem_cons.1 h with rfl | hlater
        · have hfirst := ih List.mem_cons_self
          simp [Ne.symm hdot, hfirst]
        · exact ih (List.mem_cons_of_mem _ hlater)

namespace Variables

/-- **What a path spells**: a name and the segments after it, written with dots between them and
perhaps with the heading in front. -/
def Spells (path name : String) (segments : List Segment) : Prop :=
  ∃ texts : List (List Char), segments = texts.map Segment.ofText
    ∧ (∀ text ∈ name.toList :: texts, '.' ∉ text)
    ∧ (path.toList = pathHeading.toList ++ ['.'].intercalate (name.toList :: texts)
      ∨ path.toList = ['.'].intercalate (name.toList :: texts)
        ∧ ¬ pathHeading.toList <+: path.toList)

/-- A path without its heading. -/
def bare (path : String) : List Char :=
  if pathHeading.toList.isPrefixOf path.toList then path.toList.drop pathHeading.toList.length
  else path.toList

/-- A path is the heading and what is left without it, or has no heading. -/
theorem eq_bare_iff {path : String} {written : List Char} :
    bare path = written ↔ path.toList = pathHeading.toList ++ written
      ∨ path.toList = written ∧ ¬ pathHeading.toList <+: path.toList := by
  rw [bare]
  by_cases hprefix : pathHeading.toList <+: path.toList
  · rw [if_pos (List.isPrefixOf_iff_prefix.2 hprefix)]
    obtain ⟨rest, hrest⟩ := hprefix
    simp [← hrest, eq_comm]
  · rw [if_neg (mt List.isPrefixOf_iff_prefix.1 hprefix)]
    constructor
    · intro h
      exact .inr ⟨h, hprefix⟩
    · rintro (h | ⟨h, -⟩)
      · exact absurd ⟨written, h.symm⟩ hprefix
      · exact h

/-- The first stretch between dots of a path without its heading is the name. -/
theorem splitPath_of_splitDots {path : String} {first : List Char} {texts : List (List Char)}
    (h : splitDots (bare path) = first :: texts) :
    splitPath path = (String.ofList first, texts.map Segment.ofText) := by
  rw [bare] at h
  simp only [splitPath, h]

/-- A path is split into the stretches between dots of what it is without its heading. -/
theorem splitPath_eq_iff {path name : String} {segments : List Segment} :
    splitPath path = (name, segments)
      ↔ ∃ texts, segments = texts.map Segment.ofText
        ∧ splitDots (bare path) = name.toList :: texts := by
  constructor
  · intro hpath
    cases hparts : splitDots (bare path) with
    | nil =>
      rw [splitDots_eq_splitOn] at hparts
      exact absurd hparts (List.splitOn_ne_nil _ _)
    | cons first texts =>
      obtain ⟨rfl, rfl⟩ := Prod.mk.inj ((splitPath_of_splitDots hparts).symm.trans hpath)
      exact ⟨texts, rfl, by rw [String.toList_ofList]⟩
  · rintro ⟨texts, rfl, hparts⟩
    rw [splitPath_of_splitDots hparts, String.ofList_toList]

/-- **A path is split into what it spells**, and it spells nothing else. -/
theorem spells_iff {path name : String} {segments : List Segment} :
    Spells path name segments ↔ splitPath path = (name, segments) := by
  rw [splitPath_eq_iff]
  refine exists_congr fun texts => and_congr_right fun _ => ?_
  rw [← eq_bare_iff]
  constructor
  · rintro ⟨hdots, hwritten⟩
    rw [hwritten, splitDots_eq_splitOn]
    exact List.splitOn_intercalate '.' hdots (List.cons_ne_nil _ _)
  · intro hparts
    refine ⟨fun text htext => notMem_of_mem_splitDots (hparts ▸ htext), ?_⟩
    rw [← hparts, splitDots_eq_splitOn, List.intercalate_splitOn]

end Variables

/-! ## Writing to one place of a container -/

namespace Entries

variable {α : Type u} {key : String} {before after : Entries α}

/-- **Entries after a write to one name**: all others are there as before, in their order, and every
name keeps its position, where a new one comes last. -/
structure WrittenAt (key : String) (before after : Entries α) : Prop where
  /-- The entries under other names. -/
  others : (after.filter fun entry => entry.1 ≠ key) = before.filter fun entry => entry.1 ≠ key
  /-- The names in order. -/
  names : keys after = if key ∈ keys before then keys before else keys before ++ [key]

/-- Writing to a name leaves the entries under all others alone. -/
theorem filter_upsert (entries : Entries α) (key : String) (f : Option α → α) :
    ((upsert key f entries).filter fun entry => entry.1 ≠ key)
      = entries.filter fun entry => entry.1 ≠ key := by
  induction entries with
  | nil => simp [upsert]
  | cons entry rest ih =>
    obtain ⟨k, v⟩ := entry
    by_cases hk : k = key
    · simp [upsert, hk]
    · rw [upsert, if_neg hk, List.filter_cons, List.filter_cons, ih]

theorem writtenAt_upsert (entries : Entries α) (key : String) (f : Option α → α) :
    WrittenAt key entries (upsert key f entries) :=
  ⟨filter_upsert entries key f, keys_upsert entries key f⟩

/-- Of two writes to one name the second one counts. -/
theorem upsert_upsert (entries : Entries α) (key : String) (f g : Option α → α) :
    upsert key g (upsert key f entries) = upsert key (fun old => g (some (f old))) entries := by
  induction entries with
  | nil => simp [upsert]
  | cons entry rest ih =>
    obtain ⟨k, v⟩ := entry
    by_cases hk : k = key
    · simp [upsert, hk]
    · simp [upsert, hk, ih]

end Entries

namespace Value

/-- A list with a changed item is as long as it was, or just long enough. -/
theorem length_setPadded (items : List Value) (i : Nat) (f : Value → Value) :
    (setPadded items i f).length = max items.length (i + 1) := by
  rw [setPadded, List.length_modify, List.length_append, List.length_replicate]
  omega

/-- The items of a list that has been padded are as before, or null. -/
theorem getElem?_padded (items : List Value) (length j : Nat) :
    (items ++ List.replicate (length - items.length) null)[j]?
      = items[j]?.or (if j < length then some null else none) := by
  rw [List.getElem?_append, List.getElem?_replicate]
  by_cases hj : j < items.length
  · simp [hj]
  · rw [if_neg hj, List.getElem?_eq_none (Nat.le_of_not_lt hj), Option.none_or]
    congr 1
    simp only [eq_iff_iff]
    omega

/-- **The items of a list with a changed item**: that one is made of what was there, or of null, and
all others are as before, or null up to it. -/
theorem getElem?_setPadded (items : List Value) (i : Nat) (f : Value → Value) (j : Nat) :
    (setPadded items i f)[j]? = if j = i then some (f (items[i]?.getD null))
      else items[j]?.or (if j < i then some null else none) := by
  rw [setPadded, List.getElem?_modify, getElem?_padded]
  by_cases hji : j = i
  · subst hji
    cases items[j]? <;> simp
  · have hlt : j < i + 1 ↔ j < i := by omega
    simp [hji, Ne.symm hji, hlt]

/-- Of two changes of one item the second one is made to what the first one made. -/
theorem setPadded_setPadded (items : List Value) (i : Nat) (f g : Value → Value) :
    setPadded (setPadded items i f) i g = setPadded items i fun value => g (f value) := by
  apply List.ext_getElem?
  intro j
  rw [getElem?_setPadded, getElem?_setPadded, getElem?_setPadded, getElem?_setPadded]
  by_cases hji : j = i
  · simp [hji]
  · rw [if_neg hji, if_neg hji, if_neg hji, Option.or_assoc, Option.or_self]

/-- An object with a changed entry, which is made of null if it was not there. -/
def setEntry (entries : Entries Value) (k : String) (f : Value → Value) : Entries Value :=
  Entries.upsert k (fun old => f (old.getD null)) entries

/-- **The entries of an object with a changed entry**: that one is made of what was there, or of
null, and all others are as before. -/
theorem get?_setEntry (entries : Entries Value) (k : String) (f : Value → Value) (key : String) :
    Entries.get? (setEntry entries k f) key
      = if key = k then some (f ((Entries.get? entries k).getD null))
        else Entries.get? entries key := by
  by_cases hkey : key = k
  · rw [if_pos hkey, hkey, setEntry, Entries.get?_upsert_self]
  · rw [if_neg hkey, setEntry, Entries.get?_upsert_of_ne _ _ (Ne.symm hkey)]

/-- Of two changes of one entry the second one is made to what the first one made. -/
theorem setEntry_setEntry (entries : Entries Value) (k : String) (f g : Value → Value) :
    setEntry (setEntry entries k f) k g = setEntry entries k fun value => g (f value) :=
  Entries.upsert_upsert entries k _ _

/-! ## Parts of a value -/

/-- **What a segment leads to**: an item of a list, or the entry of an object. -/
def part? (value : Value) : Segment → Option Value
  | .index i => value.list?.bind fun items => items[i]?
  | .key k => value.get? k

/-- The part at an index is an item, if there are items. -/
theorem part?_index_getD (value : Value) (i : Nat) :
    (value.part? (.index i)).getD null = ((value.list?.getD [])[i]?).getD null := by
  cases hlist : value.list? <;> simp [part?, hlist]

/-- The part under a key is the value of an entry, if there are entries. -/
theorem part?_key_getD (value : Value) (k : String) :
    (value.part? (.key k)).getD null = (Entries.get? (value.object?.getD []) k).getD null := by
  cases hobject : value.object? <;> simp [part?, get?, hobject]

/-- **What is found where segments lead** from a value. -/
def reach? : Value → List Segment → Option Value
  | value, [] => some value
  | value, segment :: rest => (value.part? segment).bind fun part => part.reach? rest

/-- **A value with one part changed**: the part to which a segment leads. Whatever does not fit the
segment gives way to a container without parts. -/
def changePart (f : Value → Value) (value : Value) : Segment → Value
  | .index i => list (setPadded (value.list?.getD []) i f)
  | .key k => object (setEntry (value.object?.getD []) k f)

/-- **Putting a value at a place** changes the part to which the first segment leads. -/
theorem assign_cons (new value : Value) (segment : Segment) (rest : List Segment) :
    assign new (segment :: rest) value = value.changePart (assign new rest) segment := by
  cases segment <;> cases value <;> rfl

/-- The changed part is made of what was there, or of null. -/
theorem part?_changePart (f : Value → Value) (value : Value) (segment : Segment) :
    (value.changePart f segment).part? segment = some (f ((value.part? segment).getD null)) := by
  cases segment with
  | index i =>
    show (setPadded (value.list?.getD []) i f)[i]? = _
    rw [getElem?_setPadded, if_pos rfl, part?_index_getD]
  | key k =>
    show Entries.get? (setEntry (value.object?.getD []) k f) k = _
    rw [get?_setEntry, if_pos rfl, part?_key_getD]

/-- Of two changes of one part the second one is made to what the first one made. -/
theorem changePart_changePart (f g : Value → Value) (value : Value) (segment : Segment) :
    (value.changePart f segment).changePart g segment
      = value.changePart (fun part => g (f part)) segment := by
  cases segment with
  | index i =>
    show list (setPadded (setPadded _ i f) i g) = _
    rw [setPadded_setPadded]
    rfl
  | key k =>
    show object (setEntry (setEntry _ k f) k g) = _
    rw [setEntry_setEntry]
    rfl

/-- **What was put at a place is found there.** -/
theorem reach?_assign (new : Value) (segments : List Segment) (value : Value) :
    (assign new segments value).reach? segments = some new := by
  induction segments generalizing value with
  | nil => rfl
  | cons segment rest ih =>
    rw [assign_cons, reach?, part?_changePart]
    exact ih _

/-- **Of two values put at one place** the second one counts. -/
theorem assign_assign (first second : Value) (segments : List Segment) (value : Value) :
    assign second segments (assign first segments value) = assign second segments value := by
  induction segments generalizing value with
  | nil => rfl
  | cons segment rest ih =>
    have hparts : (fun part => assign second rest (assign first rest part)) = assign second rest :=
      funext ih
    rw [assign_cons, assign_cons, assign_cons, changePart_changePart, hparts]

/-! ## What containers keep -/

/-- **A container keeps all parts but the one that a segment leads to.** What is there before may be
of another kind, or nothing at all; it then gives way to a container of this part alone. -/
inductive Keeps : Segment → Option Value → Value → Prop where
  /-- A list keeps its other items. It grows to the index if it was shorter, by nulls. -/
  | list {i : Nat} {before after : List Value} (length : after.length = max before.length (i + 1))
    (others : ∀ j ≠ i, j < before.length → after[j]? = before[j]?)
    (padding : ∀ j ≠ i, before.length ≤ j → j < after.length → after[j]? = some null) :
    Keeps (.index i) (some (.list before)) (.list after)
  /-- What is no list gives way to one with nulls before its last item. -/
  | freshList {i : Nat} {before : Option Value} (unlisted : before.bind list? = none)
    (part : Value) : Keeps (.index i) before (.list (List.replicate i null ++ [part]))
  /-- An object keeps its other entries. -/
  | object {k : String} {before after : Entries Value} (written : before.WrittenAt k after) :
    Keeps (.key k) (some (.object before)) (.object after)
  /-- What is no object gives way to one with a single entry. -/
  | freshObject {k : String} {before : Option Value} (unshaped : before.bind object? = none)
    (part : Value) : Keeps (.key k) before (.object [(k, part)])

/-- A list keeps its other items when one is changed. -/
theorem keeps_setPadded (items : List Value) (i : Nat) (f : Value → Value) :
    Keeps (.index i) (some (.list items)) (.list (setPadded items i f)) := by
  refine .list (length_setPadded items i f) ?_ ?_
  · intro j hji hj
    rw [getElem?_setPadded, if_neg hji, List.getElem?_eq_getElem hj, Option.some_or]
  · intro j hji hj hafter
    rw [length_setPadded] at hafter
    have hlt : j < i := by omega
    rw [getElem?_setPadded, if_neg hji, List.getElem?_eq_none hj, Option.none_or, if_pos hlt]

/-- A list without items is padded with nulls before the item. -/
theorem setPadded_nil (i : Nat) (f : Value → Value) :
    setPadded [] i f = List.replicate i null ++ [f null] := by
  apply List.ext_getElem?
  intro j
  rw [getElem?_setPadded, List.getElem?_append, List.getElem?_replicate, List.length_replicate]
  by_cases hji : j = i
  · simp [hji]
  · by_cases hlt : j < i
    · simp [hji, hlt]
    · have hgt : j - i ≠ 0 := by omega
      simp [hji, hlt, hgt]

/-- **Changing a part keeps all the others**, also where there was no value to begin with. -/
theorem keeps_changePart (f : Value → Value) (before : Option Value) (segment : Segment) :
    Keeps segment before ((before.getD null).changePart f segment) := by
  cases segment with
  | index i =>
    have hfresh : ∀ other : Option Value, other.bind list? = none →
        Keeps (.index i) other (.list (setPadded [] i f)) := by
      intro other hother
      rw [setPadded_nil]
      exact .freshList hother _
    cases before with
    | none => exact hfresh none rfl
    | some value =>
      cases value with
      | list items => exact keeps_setPadded items i f
      | _ => exact hfresh _ rfl
  | key k =>
    cases before with
    | none => exact .freshObject rfl _
    | some value =>
      cases value with
      | object entries => exact .object (Entries.writtenAt_upsert entries k _)
      | _ => exact .freshObject rfl _

/-- Nothing has no parts, as null has none. -/
theorem part?_getD_null (value : Option Value) (segment : Segment) :
    (value.getD null).part? segment = value.bind fun found => found.part? segment := by
  cases value with
  | none => cases segment <;> rfl
  | some found => rfl

/-- **Each container on the way** to where a value is put keeps its other parts. -/
theorem exists_keeps_assign (new : Value) (way : List Segment) (segment : Segment)
    (rest : List Segment) (value : Option Value) :
    ∃ container, (assign new (way ++ segment :: rest) (value.getD null)).reach? way = some container
      ∧ Keeps segment (value.bind fun found => found.reach? way) container := by
  induction way generalizing value with
  | nil =>
    refine ⟨_, rfl, ?_⟩
    have hself : (value.bind fun found => found.reach? []) = value := Option.bind_fun_some value
    rw [hself, List.nil_append, assign_cons]
    exact keeps_changePart _ value segment
  | cons first way ih =>
    obtain ⟨container, hreach, hkeeps⟩ := ih (value.bind fun found => found.part? first)
    refine ⟨container, ?_, ?_⟩
    · rw [List.cons_append, assign_cons, reach?, part?_changePart, part?_getD_null]
      exact hreach
    · rwa [Option.bind_assoc] at hkeeps

end Value

/-! ## Variables -/

namespace Variables

/-- **Variables with a value put at a place**: below a name, where segments lead. -/
structure Placed (given : Variables) (name : String) (segments : List Segment) (value : Value)
    (after : Variables) : Prop where
  /-- The value is found there. -/
  found : ((after.get? name).bind fun top => top.reach? segments) = some value
  /-- All other variables are as before, and every variable keeps its position. -/
  written : given.entries.WrittenAt name after.entries
  /-- Each container on the way keeps its other parts. -/
  kept : ∀ way segment rest, segments = way ++ segment :: rest →
    ∃ container, ((after.get? name).bind fun top => top.reach? way) = some container
      ∧ Value.Keeps segment ((given.get? name).bind fun top => top.reach? way) container

/-- A list can be long enough for an index below `2 ^ 63`. -/
theorem lt_maxIndex {segments : List Segment} (h : ∀ i, .index i ∈ segments → i < 2 ^ 63) :
    ∀ i, .index i ∈ segments → i < Segment.maxIndex := by
  intro i hi
  exact Nat.lt_trans (h i hi) (by decide)

/-- Putting a value at a path writes to the variable of its name, if a list can be long enough for
every index. -/
theorem insertAtPath_eq {path name : String} {segments : List Segment}
    (hpath : Spells path name segments) (hindex : ∀ i, .index i ∈ segments → i < Segment.maxIndex)
    (given : Variables) (value : Value) :
    given.insertAtPath path value
      = .ok ⟨Value.setEntry given.entries name (Value.assign value segments)⟩ := by
  have hnone : overlongIndex? segments = none := by
    rw [overlongIndex?, List.findSome?_eq_none_iff]
    intro segment hsegment
    cases segment with
    | index i => simp [hindex i hsegment]
    | key k => rfl
  simp only [insertAtPath, spells_iff.1 hpath, hnone, Value.setEntry]

/-- **A value is put at a path** as long as its indices are below `2 ^ 63`: it is found there, and
nothing else is lost. Another value that is put at the same path takes its place, as if it had been
the only one. -/
theorem exists_insertAtPath (given : Variables) {path name : String} {segments : List Segment}
    (hpath : Spells path name segments) (hindex : ∀ i, .index i ∈ segments → i < 2 ^ 63)
    (value : Value) :
    ∃ after, given.insertAtPath path value = .ok after
      ∧ given.Placed name segments value after
      ∧ ∀ second, after.insertAtPath path second = given.insertAtPath path second := by
  have hfits := lt_maxIndex hindex
  have hget : get? ⟨Value.setEntry given.entries name (Value.assign value segments)⟩ name
      = some (Value.assign value segments ((given.get? name).getD .null)) :=
    Entries.get?_upsert_self given.entries name _
  refine ⟨_, insertAtPath_eq hpath hfits given value, ?_, ?_⟩
  · constructor
    · rw [hget]
      exact Value.reach?_assign value segments _
    · exact Entries.writtenAt_upsert given.entries name _
    · rintro way segment rest rfl
      rw [hget]
      exact Value.exists_keeps_assign value way segment rest (given.get? name)
  · intro second
    rw [insertAtPath_eq hpath hfits, insertAtPath_eq hpath hfits, Value.setEntry_setEntry]
    simp only [Value.assign_assign]

/-- Two variables, the second of which holds a list with an object. -/
def ofFiles : Variables :=
  ⟨[("note", .null),
    ("input", .object [("files", .list [.int 1, .object [("name", .string "a")]])])]⟩

/-- A file is added to the object in the list, and another one in its place. -/
theorem exists_insertAtPath_ofFiles :
    ∃ after, ofFiles.insertAtPath "variables.input.files.+1.file" (.bytes [7]) = .ok after
      ∧ ofFiles.Placed "input" [.key "files", .index 1, .key "file"] (.bytes [7]) after
      ∧ ∀ second, after.insertAtPath "variables.input.files.+1.file" second
        = ofFiles.insertAtPath "variables.input.files.+1.file" second := by
  have hpath : Spells "variables.input.files.+1.file" "input"
      [.key "files", .index 1, .key "file"] := spells_iff.2 (by decide)
  refine exists_insertAtPath ofFiles hpath ?_ (.bytes [7])
  intro i hi
  obtain rfl : i = 1 := by simpa using hi
  decide

/-- What does not fit a segment gives way, and a list grows by nulls. -/
example : (ofFiles.insertAtPath "note.2.x" (.int 5)).toOption.map Variables.entries
    = some [("note", .list [.null, .null, .object [("x", .int 5)]]),
      ("input", .object [("files", .list [.int 1, .object [("name", .string "a")]])])] :=
  rfl

end Variables

end GraphQuery
