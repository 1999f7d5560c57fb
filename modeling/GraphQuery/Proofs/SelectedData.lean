import GraphQuery.Proofs.Entries
import GraphQuery.Execution

/-! # The selected data

A selection set is applied to a value by reading fields by name, and what no selected name reads
does not show. Two values **agree** on a selection set (`Value.AgreeOn`) if they are alike as far as
its names are read from them: what the set makes of the one it makes of the other as well. A value
agrees in this way with the part of it that the selected names reach (`Value.selected`), which is
all that a response is made of (`Executor.narrow_eq_of_agreeOn`). -/

namespace GraphQuery

/-! ## Reading by name -/

namespace Value

/-- What a name reads from a value: the field of a record, or the entry of an object. -/
def lookup? : Value → String → Option Value
  | record _ fields, name => lookupField? fields name
  | object entries, name => lookupEntry? entries name
  | _, _ => none

/-- **Reading a field** is to look it up, and to report it by its name and the kind of the value if
there is none. -/
theorem reflect_eq_of_isRecordShaped {source : Value} (h : source.isRecordShaped) (name : String) :
    source.reflect name
      = match source.lookup? name with
        | some value => .ok value
        | none => .error (.fieldNotFound name source.typeName) := by
  cases source with
  | record identity fields => rfl
  | object entries => rfl
  | _ => cases h

/-- Whether a name can be read from a value. -/
def Has (source : Value) (name : String) : Prop := ∃ value, source.reflect name = .ok value

/-- Whether a value has no field of a name. -/
def Lacks (source : Value) (name : String) : Prop :=
  ∃ field type, source.reflect name = .error (.fieldNotFound field type)

/-- What is read from something record-shaped is what is looked up. -/
theorem reflect_eq_ok_iff {source value : Value} {name : String} (h : source.isRecordShaped) :
    source.reflect name = .ok value ↔ source.lookup? name = some value := by
  rw [reflect_eq_of_isRecordShaped h]
  cases source.lookup? name <;> simp

/-- What has nothing under a name lacks it. -/
theorem lacks_of_lookup?_eq_none {source : Value} {name : String} (h : source.isRecordShaped)
    (hnone : source.lookup? name = none) : source.Lacks name :=
  ⟨name, source.typeName, by rw [reflect_eq_of_isRecordShaped h, hnone]⟩

/-- What is lacking is reported by its name and the kind of the value. -/
theorem Lacks.reflect {source : Value} {name : String} (hshaped : source.isRecordShaped)
    (h : source.Lacks name) :
    source.reflect name = .error (.fieldNotFound name source.typeName) := by
  obtain ⟨field, type, hreflect⟩ := h
  rw [reflect_eq_of_isRecordShaped hshaped] at hreflect ⊢
  cases hlookup : source.lookup? name with
  | none => rfl
  | some value =>
    rw [hlookup] at hreflect
    cases hreflect

/-! ## Agreement on a selection set -/

/-- **Agreement on a selection set**: two values are alike as far as its names are read from
them. -/
inductive AgreeOn : SelectionSet → Value → Value → Prop where
  /-- Lists agree if they are of one length and agree item by item. -/
  | list {selection : SelectionSet} {as bs : List Value} (length : as.length = bs.length)
    (items : ∀ pair ∈ as.zip bs, AgreeOn selection pair.1 pair.2) :
    AgreeOn selection (.list as) (.list bs)
  /-- What is neither a list nor record-shaped agrees with itself. -/
  | plain {selection : SelectionSet} {value : Value} (unlisted : value.list? = none)
    (unshaped : value.isRecordShaped = false) : AgreeOn selection value value
  /-- Objects agree with objects and records with records, if each selected name is lacking in
  both, or can be read from both, as the same value if it is taken as a whole, and otherwise as
  values that agree on what is selected from them. -/
  | shaped {selection : SelectionSet} {a b : Value} (left : a.isRecordShaped)
    (right : b.isRecordShaped) (kind : a.typeName = b.typeName)
    (names : ∀ field ∈ selection,
      a.Lacks field.name ∧ b.Lacks field.name ∨ a.Has field.name ∧ b.Has field.name)
    (wholes : ∀ field ∈ selection, field.selection = none → ∀ u v,
      a.reflect field.name = .ok u → b.reflect field.name = .ok v → u = v)
    (parts : ∀ field ∈ selection, ∀ nested, field.selection = some nested → ∀ u v,
      a.reflect field.name = .ok u → b.reflect field.name = .ok v → AgreeOn nested u v) :
    AgreeOn selection a b

/-- Values that agree on a selection set agree on every part of it. -/
theorem AgreeOn.mono {selection more : SelectionSet} {a b : Value} (h : AgreeOn more a b)
    (hsubset : selection ⊆ more) : AgreeOn selection a b := by
  induction h with
  | list length _ ih => exact .list length fun pair hpair => ih pair hpair hsubset
  | plain unlisted unshaped => exact .plain unlisted unshaped
  | shaped left right kind names wholes parts _ =>
    exact .shaped left right kind (fun field hfield => names field (hsubset hfield))
      (fun field hfield => wholes field (hsubset hfield))
      (fun field hfield => parts field (hsubset hfield))

end Value

/-! ## Values that agree are narrowed to the same -/

namespace Value

variable {m : Type → Type} [Monad m] {change : Value → m Value}

/-- Items that are changed to the same, one by one, are changed to the same in all. -/
theorem mapRecordItems_congr {as bs : List Value} (length : as.length = bs.length)
    (h : ∀ pair ∈ as.zip bs, pair.1.mapRecords change = pair.2.mapRecords change) :
    mapRecordItems change as = mapRecordItems change bs := by
  induction as generalizing bs with
  | nil =>
    obtain rfl := List.length_eq_zero_iff.1 length.symm
    rfl
  | cons a as ih =>
    cases bs with
    | nil => cases length
    | cons b bs =>
      have hhead := h (a, b) List.mem_cons_self
      have htail := ih (Nat.succ.inj length) fun pair hpair => h pair (List.mem_cons_of_mem _ hpair)
      rw [mapRecordItems, mapRecordItems, hhead, htail]

/-- Something record-shaped is changed as a whole. -/
theorem mapRecords_of_isRecordShaped {value : Value} (h : value.isRecordShaped) :
    value.mapRecords change = change value := by
  cases value <;> first | rfl | cases h

end Value

namespace Executor

open Value

variable {executor : Executor} {given : Variables}

/-- Fields that yield the same from two values do so in a row. -/
theorem fieldPairs_congr {source source' : Option Value} {depth : Nat} {selected : List Field}
    (h : ∀ field ∈ selected, executor.fieldValue given source depth field
      = executor.fieldValue given source' depth field) :
    executor.fieldPairs given source depth selected
      = executor.fieldPairs given source' depth selected := by
  induction selected with
  | nil => rw [fieldPairs, fieldPairs]
  | cons field rest ih =>
    have hfield := h field List.mem_cons_self
    have hrest := ih fun f hf => h f (List.mem_cons_of_mem field hf)
    rw [fieldPairs, fieldPairs, hfield, hrest]

/-- **A field** yields the same from two values if both lack it in the same way, or it is read from
both and the same is made of what is read. -/
theorem fieldValue_congr {a b : Value} {depth : Nat} {field : Field} (hleft : a.isRecordShaped)
    (hright : b.isRecordShaped) (hkind : a.typeName = b.typeName)
    (h : a.Lacks field.name ∧ b.Lacks field.name
      ∨ ∃ u v, a.reflect field.name = .ok u ∧ b.reflect field.name = .ok v
        ∧ executor.nestedValue given depth u field.selection
          = executor.nestedValue given depth v field.selection) :
    executor.fieldValue given (some a) depth field
      = executor.fieldValue given (some b) depth field := by
  have hread : ∀ source : Value, executor.fieldValue given (some source) depth field
      = (Execution.ofExcept (source.reflect field.name) >>= fun value =>
        executor.nestedValue given depth value field.selection) := by
    intro source
    obtain ⟨name, arguments, selection⟩ := field
    rw [fieldValue]
    rfl
  rw [hread, hread]
  rcases h with ⟨ha, hb⟩ | ⟨u, v, ha, hb, hsame⟩
  · rw [ha.reflect hleft, hb.reflect hright, hkind]
  · rw [ha, hb]
    exact hsame

/-- **Values that agree on a selection set** are narrowed to the same, at whatever level. -/
theorem nestedValue_eq_of_agreeOn {selection : SelectionSet} {a b : Value}
    (h : AgreeOn selection a b) (depth : Nat) :
    executor.nestedValue given depth a (some selection)
      = executor.nestedValue given depth b (some selection) := by
  induction h generalizing depth with
  | list length _ ih =>
    simp only [nestedValue] at ih ⊢
    rw [mapRecords, mapRecords, mapRecordItems_congr length fun pair hpair => ih pair hpair depth]
  | plain => rfl
  | @shaped selection a b left right kind names wholes _ ih =>
    rw [nestedValue, nestedValue, mapRecords_of_isRecordShaped left,
      mapRecords_of_isRecordShaped right]
    have hfields : ∀ field ∈ selection, executor.fieldValue given (some a) (depth + 1) field
        = executor.fieldValue given (some b) (depth + 1) field := by
      intro field hfield
      refine fieldValue_congr left right kind ((names field hfield).imp_right ?_)
      rintro ⟨⟨u, hu⟩, ⟨v, hv⟩⟩
      refine ⟨u, v, hu, hv, ?_⟩
      -- What is read under the name is the same as a whole, or agrees on what is selected in it.
      cases hnested : field.selection with
      | none => rw [wholes field hfield hnested u v hu hv]
      | some nested => exact ih field hfield nested hnested u v hu hv (depth + 1)
    rw [fieldPairs_congr hfields]

/-- Narrowing a value is what happens to the value of a field outside of all selection sets. -/
theorem narrow_eq_nestedValue (value : Value) (selection : SelectionSet) :
    executor.narrow given value selection
      = executor.nestedValue given 0 value (some selection) := by
  rw [narrow, nestedValue]
  simp [selectAt]

end Executor

/-! ## The selected part of a value

A name means a field of a record by identifier or tag, and an entry of an object by key, in any case
only where no key is exact. Either way it reads the first one that it means (`firstMeant`), and what
the names of a selection set read is all that they reach (`reached`). Several names may read the
same entry; it is then cut down to what all of their fields select together (`selectedBy`). -/

/-- The fields that are selected from the values of some fields. -/
def nestedFields (fields : List Field) : SelectionSet :=
  fields.flatMap fun field => field.selection.getD []

/-- Whether some field takes its value as a whole. -/
def takesWhole (fields : List Field) : Bool := fields.any fun field => field.selection.isNone

namespace Value

/-- Whether a name means the entry of an object under a key: by the exact key if the object has it,
and else in any case. -/
def keyMeant (keys : List String) (key name : String) : Bool :=
  if name ∈ keys then key = name else FieldDescriptor.sameIgnoringCase key name

mutual

/-- **The selected part of a value**: of objects and records there is left what the names of a
selection set reach, and of that in turn what is selected from it, or all of it if some field takes
it as a whole. -/
def selected (selection : SelectionSet) : Value → Value
  | list items => list (selectedItems selection items)
  | object entries => object (selectedEntries (Entries.keys entries) selection entries)
  | record identity fields => record identity (selectedFields selection fields)
  | null => null
  | boolean value => boolean value
  | int value => int value
  | float value => float value
  | string text => string text
  | bytes data => bytes data
  | stream channel => stream channel

/-- The selected parts of the items of a list. -/
def selectedItems (selection : SelectionSet) : List Value → List Value
  | [] => []
  | item :: items => selected selection item :: selectedItems selection items

/-- What names reach among the entries of an object with such keys. A name that means an entry does
not reach the later ones. -/
def selectedEntries (keys : List String) (selection : SelectionSet) :
    List (String × Value) → List (String × Value)
  | [] => []
  | (key, value) :: rest =>
    let here := selection.filter fun field => keyMeant keys key field.name
    let others := selection.filter fun field => !keyMeant keys key field.name
    let rest := selectedEntries keys others rest
    if here.isEmpty then rest
    else (key, if takesWhole here then value else selected (nestedFields here) value) :: rest

/-- What names reach among the fields of a record. -/
def selectedFields (selection : SelectionSet) :
    List (FieldDescriptor × Value) → List (FieldDescriptor × Value)
  | [] => []
  | (descriptor, value) :: rest =>
    let here := selection.filter fun field => descriptor.isNamed field.name
    let others := selection.filter fun field => !descriptor.isNamed field.name
    let rest := selectedFields others rest
    if here.isEmpty then rest
    else (descriptor, if takesWhole here then value else selected (nestedFields here) value) :: rest

end

/-- The part of a value that some fields select which all reach it. -/
def selectedBy (fields : List Field) (value : Value) : Value :=
  if takesWhole fields then value else value.selected (nestedFields fields)

section

variable {κ : Type} {means : κ → String → Bool}

/-- The first entry that a name means. -/
def firstMeant (means : κ → String → Bool) (name : String) (entries : List (κ × Value)) :
    Option (κ × Value) :=
  entries.find? fun entry => means entry.1 name

/-- The first of several entries is found if the name means it, and else the search goes on. -/
theorem firstMeant_cons (name : String) (entry : κ × Value) (rest : List (κ × Value)) :
    firstMeant means name (entry :: rest)
      = if means entry.1 name then some entry else firstMeant means name rest := by
  rw [firstMeant, List.find?_cons]
  cases means entry.1 name <;> rfl

/-- What is found is one of the entries, and meant. -/
theorem mem_of_firstMeant {name : String} {entries : List (κ × Value)} {entry : κ × Value}
    (h : firstMeant means name entries = some entry) : entry ∈ entries ∧ means entry.1 name := by
  have hmeans := List.find?_some h
  exact ⟨List.mem_of_find?_eq_some h, hmeans⟩

/-- **What names reach** among entries whose keys have such a meaning: the first entry that each of
them means. -/
def reached (means : κ → String → Bool) (selection : SelectionSet) :
    List (κ × Value) → List (κ × Value)
  | [] => []
  | (key, value) :: rest =>
    let here := selection.filter fun field => means key field.name
    let rest := reached means (selection.filter fun field => !means key field.name) rest
    if here.isEmpty then rest else (key, value.selectedBy here) :: rest

/-- **Only what a selected name reads is reached.** -/
theorem exists_firstMeant_of_mem_reached {selection : SelectionSet} {entries : List (κ × Value)}
    {entry : κ × Value} (h : entry ∈ reached means selection entries) :
    ∃ field ∈ selection, ∃ value, firstMeant means field.name entries = some (entry.1, value) := by
  induction entries generalizing selection with
  | nil => cases h
  | cons head rest ih =>
    obtain ⟨key, value⟩ := head
    -- What is reached later is read by a name that does not mean the first entry.
    have hlater : entry ∈ reached means (selection.filter fun field => !means key field.name) rest →
        ∃ field ∈ selection, ∃ other,
          firstMeant means field.name ((key, value) :: rest) = some (entry.1, other) := by
      intro hrest
      obtain ⟨field, hfield, other, hother⟩ := ih hrest
      obtain ⟨hmem, hmeans⟩ := List.mem_filter.1 hfield
      refine ⟨field, hmem, other, ?_⟩
      rw [firstMeant_cons, if_neg (by simpa using hmeans), hother]
    simp only [reached] at h
    split at h
    · exact hlater h
    · next hhere =>
      rcases List.mem_cons.1 h with rfl | hrest
      · obtain ⟨field, hfield⟩ := List.exists_mem_of_ne_nil _ (mt List.isEmpty_iff.2 hhere)
        obtain ⟨hmem, hmeans⟩ := List.mem_filter.1 hfield
        refine ⟨field, hmem, value, ?_⟩
        rw [firstMeant_cons, if_pos hmeans]
      · exact hlater hrest

/-- **A selected name reads** among what is reached what it reads among all entries, or rather the
part of it that is selected by some fields, of which its own is one. -/
theorem firstMeant_reached {selection : SelectionSet} {field : Field} (hfield : field ∈ selection)
    (entries : List (κ × Value)) :
    firstMeant means field.name entries = none
        ∧ firstMeant means field.name (reached means selection entries) = none
      ∨ ∃ key value here, field ∈ here
        ∧ firstMeant means field.name entries = some (key, value)
        ∧ firstMeant means field.name (reached means selection entries)
          = some (key, value.selectedBy here) := by
  induction entries generalizing selection with
  | nil => exact .inl ⟨rfl, rfl⟩
  | cons head rest ih =>
    obtain ⟨key, value⟩ := head
    simp only [reached]
    by_cases hmeans : means key field.name
    · -- The name means the first entry, which its field therefore keeps.
      have hhere : field ∈ selection.filter fun f => means key f.name :=
        List.mem_filter.2 ⟨hfield, hmeans⟩
      rw [if_neg (mt List.isEmpty_iff.1 (List.ne_nil_of_mem hhere))]
      refine .inr ⟨key, value, _, hhere, ?_, ?_⟩
      · rw [firstMeant_cons, if_pos hmeans]
      · rw [firstMeant_cons, if_pos hmeans]
    · have hothers : field ∈ selection.filter fun f => !means key f.name :=
        List.mem_filter.2 ⟨hfield, by simpa using hmeans⟩
      rw [firstMeant_cons, if_neg hmeans]
      split
      · exact ih hothers
      · rw [firstMeant_cons, if_neg hmeans]
        exact ih hothers

end

/-- What names reach among the entries of an object. -/
theorem selectedEntries_eq_reached (keys : List String) (selection : SelectionSet)
    (entries : List (String × Value)) :
    selectedEntries keys selection entries = reached (keyMeant keys) selection entries := by
  induction entries generalizing selection with
  | nil => rw [selectedEntries, reached]
  | cons entry rest ih =>
    rw [selectedEntries, reached, ih]
    rfl

/-- What names reach among the fields of a record. -/
theorem selectedFields_eq_reached (selection : SelectionSet)
    (fields : List (FieldDescriptor × Value)) :
    selectedFields selection fields = reached FieldDescriptor.isNamed selection fields := by
  induction fields generalizing selection with
  | nil => rw [selectedFields, reached]
  | cons entry rest ih =>
    rw [selectedFields, reached, ih]
    rfl

/-- **An object's entry** is looked up as the first one that the name means. -/
theorem lookupEntry?_eq_firstMeant (entries : Entries Value) (name : String) :
    lookupEntry? entries name
      = (firstMeant (keyMeant (Entries.keys entries)) name entries).map Prod.snd := by
  unfold lookupEntry?
  rw [Entries.get?_eq_find?, firstMeant]
  by_cases hname : name ∈ Entries.keys entries
  · -- There is an exact key, which is found.
    obtain ⟨entry, hentry, hkey⟩ := List.mem_map.1 hname
    have hfound : (entries.find? fun entry => entry.1 = name).isSome :=
      List.find?_isSome.2 ⟨entry, hentry, by simpa using hkey⟩
    obtain ⟨found, hfound⟩ := Option.isSome_iff_exists.1 hfound
    simp [keyMeant, hname, hfound]
  · have hnone : (entries.find? fun entry => entry.1 = name) = none := by
      rw [List.find?_eq_none]
      intro entry hentry hkey
      exact hname (List.mem_map.2 ⟨entry, hentry, by simpa using hkey⟩)
    simp [keyMeant, hname, hnone]

/-- A selected name that is an exact key still is one among what is reached, and no other becomes
one. -/
theorem mem_keys_reached_iff {selection : SelectionSet} {field : Field} (hfield : field ∈ selection)
    (entries : Entries Value) :
    field.name ∈ Entries.keys (reached (keyMeant (Entries.keys entries)) selection entries)
      ↔ field.name ∈ Entries.keys entries := by
  constructor
  · intro hmem
    obtain ⟨entry, hentry, hkey⟩ := List.mem_map.1 hmem
    obtain ⟨_, _, value, hfirst⟩ := exists_firstMeant_of_mem_reached hentry
    exact List.mem_map.2 ⟨_, (mem_of_firstMeant hfirst).1, hkey⟩
  · intro hmem
    -- A name that is a key means that key and no other.
    have hexact : ∀ key,
        keyMeant (Entries.keys entries) key field.name = true ↔ key = field.name := by
      intro key
      rw [keyMeant, if_pos hmem, decide_eq_true_iff]
    rcases @firstMeant_reached _ (keyMeant (Entries.keys entries)) _ _ hfield entries with
      ⟨hnone, -⟩ | ⟨found, value, here, -, hfound, hreached⟩
    · obtain ⟨entry, hentry, hkey⟩ := List.mem_map.1 hmem
      exact absurd ((hexact entry.1).2 hkey) (List.find?_eq_none.1 hnone entry hentry)
    · have hkey : found = field.name := (hexact found).1 (mem_of_firstMeant hfound).2
      exact List.mem_map.2 ⟨_, (mem_of_firstMeant hreached).1, hkey⟩

/-- Looking up a selected name in an object or a record, and in the selected part of it, is to look
for the first entry that is meant, among all entries and among those that are reached. -/
theorem exists_lookup?_eq_firstMeant {selection : SelectionSet} {field : Field}
    (hfield : field ∈ selection) {source : Value} (h : source.isRecordShaped) :
    ∃ (κ : Type) (means : κ → String → Bool) (entries : List (κ × Value)),
      source.lookup? field.name = (firstMeant means field.name entries).map Prod.snd
        ∧ (source.selected selection).lookup? field.name
          = (firstMeant means field.name (reached means selection entries)).map Prod.snd := by
  cases source with
  | record identity fields =>
    refine ⟨_, FieldDescriptor.isNamed, fields, rfl, ?_⟩
    rw [selected, selectedFields_eq_reached]
    rfl
  | object entries =>
    refine ⟨_, keyMeant (Entries.keys entries), entries, lookupEntry?_eq_firstMeant _ _, ?_⟩
    rw [selected, selectedEntries_eq_reached, lookup?, lookupEntry?_eq_firstMeant]
    -- The name means the same keys whether all entries are there or only those that are reached.
    have hmeaning : ∀ key,
        keyMeant (Entries.keys (reached (keyMeant (Entries.keys entries)) selection entries)) key
            field.name
          = keyMeant (Entries.keys entries) key field.name := by
      intro key
      simp only [keyMeant, mem_keys_reached_iff hfield]
    simp only [firstMeant, hmeaning]
  | _ => cases h

/-- **A selected name reads** from the selected part of an object or a record what it reads from all
of it, or rather the part of it that is selected by some fields, of which its own is one. -/
theorem lookup?_selected {selection : SelectionSet} {field : Field} (hfield : field ∈ selection)
    {source : Value} (h : source.isRecordShaped) :
    source.lookup? field.name = none ∧ (source.selected selection).lookup? field.name = none
      ∨ ∃ value here, field ∈ here ∧ source.lookup? field.name = some value
        ∧ (source.selected selection).lookup? field.name = some (value.selectedBy here) := by
  obtain ⟨κ, means, entries, hsource, hpart⟩ := exists_lookup?_eq_firstMeant hfield h
  rw [hsource, hpart]
  rcases @firstMeant_reached κ means _ _ hfield entries with
    ⟨hnone, hnone'⟩ | ⟨key, value, here, hhere, hfound, hreached⟩
  · rw [hnone, hnone']
    exact .inl ⟨rfl, rfl⟩
  · rw [hfound, hreached]
    exact .inr ⟨value, here, hhere, rfl, rfl⟩

/-! ## Values agree with their selected parts -/

/-- What a name reads from a value is smaller than the value. -/
theorem sizeOf_lt_of_lookup? {source value : Value} {name : String}
    (h : source.lookup? name = some value) : sizeOf value < sizeOf source := by
  cases source with
  | record identity fields =>
    obtain ⟨field, hfound, rfl⟩ := Option.map_eq_some_iff.1 h
    have hlt := List.sizeOf_lt_of_mem (List.mem_of_find?_eq_some hfound)
    obtain ⟨descriptor, value⟩ := field
    simp only [Prod.mk.sizeOf_spec, record.sizeOf_spec] at hlt ⊢
    omega
  | object entries =>
    rw [lookup?, lookupEntry?_eq_firstMeant] at h
    obtain ⟨entry, hfound, rfl⟩ := Option.map_eq_some_iff.1 h
    have hlt := List.sizeOf_lt_of_mem (mem_of_firstMeant hfound).1
    obtain ⟨key, value⟩ := entry
    simp only [Prod.mk.sizeOf_spec, object.sizeOf_spec] at hlt ⊢
    omega
  | _ => cases h

/-- **Induction on a value**: on the items of a list, and on what names read from a record-shaped
value. -/
@[elab_as_elim]
theorem readInduction {motive : Value → Prop}
    (list : ∀ items, (∀ item ∈ items, motive item) → motive (list items))
    (shaped : ∀ value, value.isRecordShaped →
      (∀ name part, value.lookup? name = some part → motive part) → motive value)
    (plain : ∀ value, value.list? = none → value.isRecordShaped = false → motive value)
    (value : Value) : motive value := by
  -- The induction is on the size, since what a name reads is no subterm by its form.
  induction hsize : sizeOf value using Nat.strongRecOn generalizing value with
  | ind size ih =>
    subst hsize
    cases hshaped : value.isRecordShaped with
    | true =>
      exact shaped value hshaped fun _ part hpart => ih _ (sizeOf_lt_of_lookup? hpart) part rfl
    | false =>
      cases value with
      | list items =>
        refine list items fun item hitem => ih _ ?_ item rfl
        have hlt := List.sizeOf_lt_of_mem hitem
        rw [Value.list.sizeOf_spec]
        omega
      | _ => exact plain _ rfl hshaped

/-- Reading the same from both of two values, if anything, suffices to agree. -/
theorem agreeOn_of_lookup? {selection : SelectionSet} {a b : Value} (left : a.isRecordShaped)
    (right : b.isRecordShaped) (kind : a.typeName = b.typeName)
    (h : ∀ field ∈ selection, a.lookup? field.name = none ∧ b.lookup? field.name = none
      ∨ ∃ u v, a.lookup? field.name = some u ∧ b.lookup? field.name = some v
        ∧ (field.selection = none → u = v)
        ∧ ∀ nested, field.selection = some nested → AgreeOn nested u v) :
    AgreeOn selection a b := by
  have hnames : ∀ field ∈ selection,
      a.Lacks field.name ∧ b.Lacks field.name ∨ a.Has field.name ∧ b.Has field.name := by
    intro field hfield
    rcases h field hfield with ⟨ha, hb⟩ | ⟨u, v, ha, hb, -⟩
    · exact .inl ⟨lacks_of_lookup?_eq_none left ha, lacks_of_lookup?_eq_none right hb⟩
    · exact .inr ⟨⟨u, (reflect_eq_ok_iff left).2 ha⟩, ⟨v, (reflect_eq_ok_iff right).2 hb⟩⟩
  have hreads : ∀ field ∈ selection, ∀ u v,
      a.reflect field.name = .ok u → b.reflect field.name = .ok v →
      (field.selection = none → u = v)
        ∧ ∀ nested, field.selection = some nested → AgreeOn nested u v := by
    intro field hfield u v hu hv
    rw [reflect_eq_ok_iff left] at hu
    rw [reflect_eq_ok_iff right] at hv
    rcases h field hfield with ⟨ha, -⟩ | ⟨u', v', ha, hb, hboth⟩
    · rw [ha] at hu
      cases hu
    · cases hu.symm.trans ha
      cases hv.symm.trans hb
      exact hboth
  exact .shaped left right kind hnames
    (fun field hfield hwhole u v hu hv => (hreads field hfield u v hu hv).1 hwhole)
    (fun field hfield nested hnested u v hu hv =>
      (hreads field hfield u v hu hv).2 nested hnested)

/-- A list agrees with what its items are made into, if each of them does. -/
theorem agreeOn_list_map {selection : SelectionSet} {items : List Value} {f : Value → Value}
    (h : ∀ item ∈ items, AgreeOn selection item (f item)) :
    AgreeOn selection (list items) (list (items.map f)) := by
  refine .list (List.length_map f).symm fun pair hpair => ?_
  have hzip : items.zip (items.map f) = items.map fun item => (item, f item) := by
    have hboth := @List.zip_map' _ _ _ id f items
    rwa [List.map_id] at hboth
  rw [hzip] at hpair
  obtain ⟨item, hitem, rfl⟩ := List.mem_map.1 hpair
  exact h item hitem

/-- Every value agrees with itself. -/
theorem AgreeOn.refl (selection : SelectionSet) (value : Value) :
    AgreeOn selection value value := by
  induction value using readInduction generalizing selection with
  | list items ih =>
    have hmap := agreeOn_list_map fun item hitem => ih item hitem selection
    rwa [List.map_id'] at hmap
  | shaped value hshaped ih =>
    refine agreeOn_of_lookup? hshaped hshaped rfl fun field _ => ?_
    cases hlookup : value.lookup? field.name with
    | none => exact .inl ⟨rfl, rfl⟩
    | some part =>
      refine .inr ⟨part, part, rfl, rfl, fun _ => rfl, fun nested _ => ?_⟩
      exact ih _ part hlookup nested
  | plain value unlisted unshaped => exact .plain unlisted unshaped

/-- The items of a list have their selected parts. -/
theorem selectedItems_eq_map (selection : SelectionSet) (items : List Value) :
    selectedItems selection items = items.map (selected selection) := by
  induction items with
  | nil => rfl
  | cons item items ih => rw [selectedItems, ih, List.map_cons]

/-- The selected part of a value is of the same kind. -/
theorem typeName_selected (selection : SelectionSet) (value : Value) :
    (value.selected selection).typeName = value.typeName := by
  cases value <;> rfl

/-- The selected part of an object or a record is one. -/
theorem isRecordShaped_selected (selection : SelectionSet) (value : Value) :
    (value.selected selection).isRecordShaped = value.isRecordShaped := by
  cases value <;> rfl

/-- What is neither a list nor record-shaped is selected as it is. -/
theorem selected_of_plain (selection : SelectionSet) {value : Value} (unlisted : value.list? = none)
    (unshaped : value.isRecordShaped = false) : value.selected selection = value := by
  cases value with
  | list items => cases unlisted
  | object entries => cases unshaped
  | record identity fields => cases unshaped
  | _ => rfl

/-- **A value agrees with its selected part.** -/
theorem agreeOn_selected (selection : SelectionSet) (value : Value) :
    AgreeOn selection value (value.selected selection) := by
  induction value using readInduction generalizing selection with
  | list items ih =>
    rw [selected, selectedItems_eq_map]
    exact agreeOn_list_map fun item hitem => ih item hitem selection
  | shaped value hshaped ih =>
    have hshaped' := hshaped
    rw [← isRecordShaped_selected selection] at hshaped'
    refine agreeOn_of_lookup? hshaped hshaped' (typeName_selected selection value).symm ?_
    intro field hfield
    refine (lookup?_selected hfield hshaped).imp_right ?_
    rintro ⟨part, here, hhere, hfound, hselected⟩
    refine ⟨part, part.selectedBy here, hfound, hselected, ?_, ?_⟩
    · intro hwhole
      have htakes : takesWhole here := List.any_eq_true.2 ⟨field, hhere, by simp [hwhole]⟩
      rw [selectedBy, if_pos htakes]
    · intro nested hnested
      unfold selectedBy
      split
      · exact .refl nested part
      · -- The nested set is a part of all that is selected from the value.
        have hsubset : nested ⊆ nestedFields here := fun inner hinner =>
          List.mem_flatMap.2 ⟨field, hhere, by simpa [hnested] using hinner⟩
        exact (ih _ part hfound (nestedFields here)).mono hsubset
  | plain value unlisted unshaped =>
    rw [selected_of_plain selection unlisted unshaped]
    exact .plain unlisted unshaped

end Value

namespace Executor

/-- **The response depends on the selected data only.** Values that agree on a selection set are
narrowed by it to the same value, or fail with the same error, whatever the settings and the
variables are. In particular, all that is not in the selected part of a value may as well be left
out of it. -/
theorem narrow_eq_of_agreeOn (executor : Executor) (given : Variables) (selection : SelectionSet) :
    (∀ a b, Value.AgreeOn selection a b →
        executor.narrow given a selection = executor.narrow given b selection)
      ∧ ∀ value, Value.AgreeOn selection value (value.selected selection)
        ∧ executor.narrow given (value.selected selection) selection
          = executor.narrow given value selection := by
  have hsame : ∀ a b, Value.AgreeOn selection a b →
      executor.narrow given a selection = executor.narrow given b selection := by
    intro a b h
    rw [narrow_eq_nestedValue, narrow_eq_nestedValue]
    exact nestedValue_eq_of_agreeOn h 0
  refine ⟨hsame, fun value => ?_⟩
  have hagree := Value.agreeOn_selected selection value
  exact ⟨hagree, (hsame _ _ hagree).symm⟩

/-- The names of persons and the ages of their cats. -/
def catAges : SelectionSet :=
  [⟨"name", [], none⟩, ⟨"cats", [], some [⟨"age", [], none⟩]⟩]

/-- A person of some age whose cat has some name. -/
def withCat (nameKey : String) (age : Int64) (catName : String) : Value :=
  .object [("age", .int age), (nameKey, .string "Ann"),
    ("cats", .list [.null, .object [("age", .int 3), ("name", .string catName)]])]

/-- Persons agree on that if their cats are of one age. -/
theorem agreeOn_withCat :
    Value.AgreeOn catAges (withCat "name" 40 "Tom") (withCat "Name" 50 "Kit") := by
  refine Value.agreeOn_of_lookup? rfl rfl rfl ?_
  simp only [catAges, List.forall_mem_cons]
  refine ⟨.inr ⟨_, _, rfl, rfl, fun _ => rfl, nofun⟩, .inr ⟨_, _, rfl, rfl, nofun, ?_⟩, nofun⟩
  rintro _ ⟨⟩
  refine .list rfl ?_
  simp only [List.zip_cons_cons, List.forall_mem_cons]
  refine ⟨.plain rfl rfl, Value.agreeOn_of_lookup? rfl rfl rfl ?_, nofun⟩
  simp only [List.forall_mem_cons]
  exact ⟨.inr ⟨_, _, rfl, rfl, fun _ => rfl, nofun⟩, nofun⟩

/-- Neither the age of a person nor the name of a cat shows, nor in which case a key is written. -/
theorem narrow_withCat :
    Value.AgreeOn catAges (withCat "name" 40 "Tom") (withCat "Name" 50 "Kit")
      ∧ (⟨.empty, {}⟩ : Executor).narrow .empty (withCat "name" 40 "Tom") catAges
        = (⟨.empty, {}⟩ : Executor).narrow .empty (withCat "Name" 50 "Kit") catAges :=
  ⟨agreeOn_withCat, (narrow_eq_of_agreeOn ⟨.empty, {}⟩ .empty catAges).1 _ _ agreeOn_withCat⟩

/-- Two names read the same entry, and either of them a part of it. -/
example (registry : Registry) (given : Variables) (host : Host) :
    let cat : Value := .object [("age", .int 3), ("name", .string "Tom"), ("legs", .int 4)]
    let selection : SelectionSet :=
      [⟨"CAT", [], some [⟨"age", [], none⟩]⟩, ⟨"cat", [], some [⟨"name", [], none⟩]⟩]
    ((⟨registry, {}⟩ : Executor).narrow given (.object [("Cat", cat)]) selection host).1
      = .ok (.object
        [("CAT", .object [("age", .int 3)]), ("cat", .object [("name", .string "Tom")])]) :=
  rfl

end Executor

end GraphQuery
