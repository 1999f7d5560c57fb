import GraphQuery.Value.Json
import GraphQuery.Proofs.JsonText
import GraphQuery.Proofs.SortedMembers

/-! # Values are read back from JSON as their data

A text does not tell everything about a runtime value. What it tells is the **data** of the value
(`Value.dataView`): bytes are numbers, a stream is nothing, and a record is the object of its fields
under their serialized names, of which the last one counts where two are the same. A value without
floats is read back as its data, up to the order of keys, which come out sorted
(`Value.readsBackAsData`).

`Json.Tells` relates a tree to the data that is read from it. There is one rule for each kind of
tree, and following a value from its parts to the whole applies them one by one. -/

namespace GraphQuery

namespace Value

mutual

/-- **The data of a value**: what its JSON text tells. -/
def dataView : Value → Value
  | .bytes data => list (data.map fun byte => int (Int64.ofInt byte.toNat))
  | stream _ => null
  | list items => list (itemsData items)
  | object entries => object (entriesData entries)
  | record _ fields => object (Entries.ofPairs (fieldsData fields))
  | null => null
  | boolean value => boolean value
  | int value => int value
  | float value => float value
  | string text => string text

/-- The data of items. -/
def itemsData : List Value → List Value
  | [] => []
  | item :: rest => dataView item :: itemsData rest

/-- The data of entries, under the same keys. -/
def entriesData : List (String × Value) → List (String × Value)
  | [] => []
  | (key, value) :: rest => (key, dataView value) :: entriesData rest

/-- The data of a record's fields, under their serialized names. -/
def fieldsData : List (FieldDescriptor × Value) → List (String × Value)
  | [] => []
  | (descriptor, value) :: rest => (descriptor.serializedName, dataView value) :: fieldsData rest

end

/-- **The keys of every object in a value are distinct**, also in records. -/
inductive WellKeyed : Value → Prop where
  /-- Null. -/
  | null : WellKeyed .null
  /-- A truth value. -/
  | boolean (value : Bool) : WellKeyed (.boolean value)
  /-- An integer. -/
  | int (value : Int64) : WellKeyed (.int value)
  /-- A float. -/
  | float (value : Binary64) : WellKeyed (.float value)
  /-- A text. -/
  | string (text : String) : WellKeyed (.string text)
  /-- Bytes. -/
  | bytes (data : List UInt8) : WellKeyed (.bytes data)
  /-- A list of such values. -/
  | list {items : List Value} (each : ∀ item ∈ items, WellKeyed item) : WellKeyed (.list items)
  /-- An object of such values, under distinct keys. -/
  | object {entries : List (String × Value)} (distinct : Entries.DistinctKeys entries)
    (each : ∀ entry ∈ entries, WellKeyed entry.2) : WellKeyed (.object entries)
  /-- A record of such values; two fields may have one serialized name. -/
  | record {identity : Nat} {fields : List (FieldDescriptor × Value)}
    (each : ∀ field ∈ fields, WellKeyed field.2) : WellKeyed (.record identity fields)
  /-- A stream. -/
  | stream (channel : Nat) : WellKeyed (.stream channel)

/-- **A value as a program can hold it**: its objects are maps. -/
abbrev Keyed := {value : Value // value.WellKeyed}

/-- **There is no float in a value**, also not in its records. -/
inductive FloatFree : Value → Prop where
  /-- Null. -/
  | null : FloatFree .null
  /-- A truth value. -/
  | boolean (value : Bool) : FloatFree (.boolean value)
  /-- An integer. -/
  | int (value : Int64) : FloatFree (.int value)
  /-- A text. -/
  | string (text : String) : FloatFree (.string text)
  /-- Bytes. -/
  | bytes (data : List UInt8) : FloatFree (.bytes data)
  /-- A list without floats. -/
  | list {items : List Value} (each : ∀ item ∈ items, FloatFree item) : FloatFree (.list items)
  /-- An object without floats. -/
  | object {entries : List (String × Value)} (each : ∀ entry ∈ entries, FloatFree entry.2) :
    FloatFree (.object entries)
  /-- A record without floats. -/
  | record {identity : Nat} {fields : List (FieldDescriptor × Value)}
    (each : ∀ field ∈ fields, FloatFree field.2) : FloatFree (.record identity fields)
  /-- A stream. -/
  | stream (channel : Nat) : FloatFree (.stream channel)

/-- **A value that is data already**: no float, no bytes, no record and no stream. -/
inductive IsData : Value → Prop where
  /-- Null. -/
  | null : IsData .null
  /-- A truth value. -/
  | boolean (value : Bool) : IsData (.boolean value)
  /-- An integer. -/
  | int (value : Int64) : IsData (.int value)
  /-- A text. -/
  | string (text : String) : IsData (.string text)
  /-- A list of data. -/
  | list {items : List Value} (each : ∀ item ∈ items, IsData item) : IsData (.list items)
  /-- An object of data. -/
  | object {entries : List (String × Value)} (each : ∀ entry ∈ entries, IsData entry.2) :
    IsData (.object entries)

/-! ## Lists of parts -/

theorem itemsData_eq (items : List Value) : itemsData items = items.map dataView := by
  induction items with
  | nil => rfl
  | cons item rest ih => rw [itemsData, ih, List.map_cons]

theorem entriesData_eq (entries : List (String × Value)) :
    entriesData entries = entries.map fun entry => (entry.1, entry.2.dataView) := by
  induction entries with
  | nil => rfl
  | cons entry rest ih => rw [entriesData, ih, List.map_cons]

theorem fieldsData_eq (fields : List (FieldDescriptor × Value)) :
    fieldsData fields = fields.map fun field => (field.1.serializedName, field.2.dataView) := by
  induction fields with
  | nil => rfl
  | cons field rest ih => rw [fieldsData, ih, List.map_cons]

theorem itemsToJson_eq (items : List Value) : itemsToJson items = items.map toJson := by
  induction items with
  | nil => rfl
  | cons item rest ih => rw [itemsToJson, ih, List.map_cons]

theorem entriesToJson_eq (entries : List (String × Value)) :
    entriesToJson entries = entries.map fun entry => (entry.1, entry.2.toJson) := by
  induction entries with
  | nil => rfl
  | cons entry rest ih => rw [entriesToJson, ih, List.map_cons]

theorem fieldsToJson_eq (fields : List (FieldDescriptor × Value)) :
    fieldsToJson fields = fields.map fun field => (field.1.serializedName, field.2.toJson) := by
  induction fields with
  | nil => rfl
  | cons field rest ih => rw [fieldsToJson, ih, List.map_cons]

/-- What is data already is its own data. -/
theorem IsData.dataView_eq {value : Value} (h : value.IsData) : value.dataView = value := by
  induction h with
  | null | boolean | int | string => rfl
  | @list items each ih =>
    rw [dataView, itemsData_eq, List.map_congr_left ih, List.map_id']
  | @object entries each ih =>
    have hsame : ∀ entry ∈ entries, (entry.1, entry.2.dataView) = entry := by
      intro entry hentry
      rw [ih entry hentry]
    rw [dataView, entriesData_eq, List.map_congr_left hsame, List.map_id']

/-- Data has no floats. -/
theorem IsData.floatFree {value : Value} (h : value.IsData) : value.FloatFree := by
  induction h with
  | null => exact .null
  | boolean value => exact .boolean value
  | int value => exact .int value
  | string text => exact .string text
  | list each ih => exact .list ih
  | object each ih => exact .object ih

/-! ## Equal objects -/

/-- An object is within another one if each of its entries has an equal one there. -/
theorem entriesWithin_iff {as bs : List (String × Value)} :
    entriesWithin as bs = true ↔
      ∀ entry ∈ as, ∃ b, Entries.get? bs entry.1 = some b ∧ entry.2.equals b = true := by
  induction as with
  | nil => simp [entriesWithin]
  | cons entry rest ih =>
    obtain ⟨key, a⟩ := entry
    rw [entriesWithin, Bool.and_eq_true, ih, List.forall_mem_cons]
    cases Entries.get? bs key with
    | none => simp
    | some b => simp

/-- The last write of a name, where each pair comes from an item. -/
theorem lastWrite?_map {α β : Type} (name : α → String) (value : α → β) (xs : List α)
    (key : String) :
    Entries.lastWrite? (xs.map fun x => (name x, value x)) key
      = (xs.reverse.find? fun x => name x = key).map fun x => (name x, value x) := by
  rw [Entries.lastWrite?, ← List.map_reverse, List.find?_map]
  rfl

/-- **Sorting the members of an object changes nothing about it**: they are equal to what is left
when equal values are written under the same names. -/
theorem equals_object_sortedMembers {α : Type} (name : α → String) {read data : α → Value}
    {xs : List α} (h : ∀ x ∈ xs, (read x).equals (data x) = true) :
    (object (Json.sortedMembers (xs.map fun x => (name x, read x)))).equals
      (object (Entries.ofPairs (xs.map fun x => (name x, data x)))) = true := by
  have hlength : (Json.sortedMembers (xs.map fun x => (name x, read x))).length
      = (Entries.ofPairs (xs.map fun x => (name x, data x))).length := by
    rw [Json.length_sortedMembers, Entries.length_ofPairs, Entries.length_ofPairs]
    simp [Entries.keys, Function.comp_def]
  have hwithin : entriesWithin (Json.sortedMembers (xs.map fun x => (name x, read x)))
      (Entries.ofPairs (xs.map fun x => (name x, data x))) = true := by
    rw [entriesWithin_iff]
    intro entry hentry
    have hvalue := (Json.ascends_sortedMembers _).distinctKeys.get?_of_mem hentry
    rw [Json.get?_sortedMembers, Entries.get?_ofPairs, lastWrite?_map] at hvalue
    rw [Entries.get?_ofPairs, lastWrite?_map]
    -- Both values are those of the last item with the name.
    cases hlast : xs.reverse.find? fun x => name x = entry.1 with
    | none => simp [hlast] at hvalue
    | some x =>
      have hx : x ∈ xs := List.mem_reverse.1 (List.mem_of_find?_eq_some hlast)
      have hread : read x = entry.2 := by simpa [hlast] using hvalue
      exact ⟨data x, rfl, hread ▸ h x hx⟩
  rw [equals, hlength, hwithin]
  simp

end Value

/-! ## What trees tell -/

/-- **A tree tells data**: what is read from it is equal to the data. -/
def Json.Tells (json : Json) (data : Value) : Prop :=
  ∃ value, Value.ofJson? json = some value ∧ value.equals data = true

namespace Json

theorem tells_null : Json.null.Tells .null := ⟨.null, rfl, rfl⟩

theorem tells_bool (value : Bool) : (Json.bool value).Tells (.boolean value) :=
  ⟨.boolean value, rfl, by simp [Value.equals]⟩

theorem tells_string (text : String) : (Json.string text).Tells (.string text) :=
  ⟨.string text, rfl, by simp [Value.equals]⟩

/-- An integer of sixty-four bits with a sign is told as it is. -/
theorem tells_int (value : Int64) : (Json.int value.toInt).Tells (.int value) := by
  have hrange : Integer.minValue ≤ value.toInt ∧ value.toInt ≤ Integer.maxValue := by
    have hlower := value.le_toInt
    have hupper := value.toInt_lt
    simp only [Integer.minValue, Integer.maxValue]
    omega
  refine ⟨.int value, ?_, by simp [Value.equals]⟩
  rw [Value.ofJson?, Value.ofInteger, if_pos hrange, Int64.ofInt_toInt]

/-- A byte is told as a number. -/
theorem tells_byte (byte : UInt8) :
    (Json.int byte.toNat).Tells (.int (Int64.ofInt byte.toNat)) := by
  have hbound := byte.toNat_lt
  have hsame : (Int64.ofInt byte.toNat).toInt = byte.toNat :=
    Int64.toInt_ofInt_of_le (by omega) (by omega)
  have htells := tells_int (Int64.ofInt byte.toNat)
  rwa [hsame] at htells

section Parts

variable {α : Type} {xs : List α} {json : α → Json} {data : α → Value}

/-- **An array tells a list** if its items tell the items. -/
theorem tells_array (h : ∀ x ∈ xs, (json x).Tells (data x)) :
    (Json.array (xs.map json)).Tells (.list (xs.map data)) := by
  have hitems : ∃ values, Value.itemsOfJson? (xs.map json) = some values
      ∧ Value.itemsEqual values (xs.map data) = true := by
    induction xs with
    | nil => exact ⟨[], rfl, rfl⟩
    | cons x xs ih =>
      obtain ⟨value, hread, hequal⟩ := h x List.mem_cons_self
      obtain ⟨values, hreads, hequals⟩ := ih fun y hy => h y (List.mem_cons_of_mem _ hy)
      refine ⟨value :: values, ?_, ?_⟩
      · simp [Value.itemsOfJson?, hread, hreads]
      · simp [Value.itemsEqual, hequal, hequals]
  obtain ⟨values, hread, hequal⟩ := hitems
  refine ⟨.list values, ?_, ?_⟩
  · rw [Value.ofJson?, hread]
    rfl
  · rwa [Value.equals]

/-- **An object tells what is left when its members are written one after the other**, if their
values tell the values. -/
theorem tells_object (name : α → String) (h : ∀ x ∈ xs, (json x).Tells (data x)) :
    (Json.object (xs.map fun x => (name x, json x))).Tells
      (.object (Entries.ofPairs (xs.map fun x => (name x, data x)))) := by
  -- What is read from each member, as a function of where the member comes from.
  have hmember : ∀ x ∈ xs, ∃ value, Value.ofJson? (json x) = some value
      ∧ ((Value.ofJson? (json x)).getD .null).equals (data x) = true := by
    intro x hx
    obtain ⟨value, hread, hequal⟩ := h x hx
    exact ⟨value, hread, by simpa [hread] using hequal⟩
  have hmembers : Value.membersOfJson? (xs.map fun x => (name x, json x))
      = some (xs.map fun x => (name x, (Value.ofJson? (json x)).getD .null)) := by
    clear h
    induction xs with
    | nil => rfl
    | cons x xs ih =>
      obtain ⟨value, hread, -⟩ := hmember x List.mem_cons_self
      have hrest := ih fun y hy => hmember y (List.mem_cons_of_mem _ hy)
      simp [Value.membersOfJson?, hread, hrest]
  refine ⟨.object (sortedMembers (xs.map fun x => (name x, (Value.ofJson? (json x)).getD .null))),
    ?_, ?_⟩
  · rw [Value.ofJson?, hmembers]
    rfl
  · refine Value.equals_object_sortedMembers name fun x hx => ?_
    obtain ⟨-, -, hequal⟩ := hmember x hx
    exact hequal

end Parts

end Json

namespace Value

/-- **The tree of a value tells its data.** -/
theorem Keyed.tells (value : Keyed) (h : value.val.FloatFree) :
    value.val.toJson.Tells value.val.dataView := by
  obtain ⟨value, hkeys⟩ := value
  change value.toJson.Tells value.dataView
  change value.FloatFree at h
  induction h with
  | null | stream => exact Json.tells_null
  | boolean value => exact Json.tells_bool value
  | int value => exact Json.tells_int value
  | string text => exact Json.tells_string text
  | bytes data => exact Json.tells_array fun byte _ => Json.tells_byte byte
  | @list items each ih =>
    cases hkeys with
    | list heach =>
      rw [toJson, itemsToJson_eq, dataView, itemsData_eq]
      exact Json.tells_array fun item hitem => ih item hitem (heach item hitem)
  | @object entries each ih =>
    cases hkeys with
    | object hdistinct heach =>
      have htells := Json.tells_object Prod.fst fun entry hentry =>
        ih entry hentry (heach entry hentry)
      have hdata : Entries.DistinctKeys (entries.map fun entry => (entry.1, entry.2.dataView)) := by
        simpa [Entries.DistinctKeys, Entries.keys, Function.comp_def] using hdistinct
      rwa [toJson, entriesToJson_eq, dataView, entriesData_eq, ← hdata.ofPairs_eq]
  | @record identity fields each ih =>
    cases hkeys with
    | record heach =>
      rw [toJson, fieldsToJson_eq, dataView, fieldsData_eq]
      exact Json.tells_object (fun field : FieldDescriptor × Value => field.1.serializedName)
        fun field hfield => ih field hfield (heach field hfield)

theorem readable_int64 (value : Int64) : (Json.int value.toInt).Readable := by
  have hlower := value.le_toInt
  have hupper := value.toInt_lt
  refine .int ?_ ?_
  · simp only [Json.negativeBound]
    omega
  · simp only [Json.maxWord]
    omega

theorem readable_byte (byte : UInt8) : (Json.int byte.toNat).Readable := by
  have hbound := byte.toNat_lt
  refine .int ?_ ?_
  · simp only [Json.negativeBound]
    omega
  · simp only [Json.maxWord]
    omega

/-- The tree of a value without floats is readable. -/
theorem FloatFree.readable_toJson {value : Value} (h : value.FloatFree) :
    value.toJson.Readable := by
  induction h with
  | null | stream => exact .null
  | boolean value => exact .bool value
  | string text => exact .string text
  | int value => exact readable_int64 value
  | bytes data => exact .array_map fun byte _ => readable_byte byte
  | @list items each ih =>
    rw [toJson, itemsToJson_eq]
    exact .array_map ih
  | @object entries each ih =>
    rw [toJson, entriesToJson_eq]
    exact .object_map ih
  | @record identity fields each ih =>
    rw [toJson, fieldsToJson_eq]
    exact .object_map ih

/-- **A value without floats is read back from its JSON text as its data**, if it does not nest too
deep to be read; a value that is data already is read back as an equal value. -/
theorem readsBackAsData (value : Keyed) (hfloat : value.val.FloatFree)
    (hdepth : value.val.toJson.depth ≤ Json.maxDepth) :
    Json.parse? value.val.toJson.compact = some value.val.toJson ∧
      ∃ read, ofJsonText? value.val.toJson.compact = some read ∧
        read.equals value.val.dataView = true ∧
        (value.val.IsData → read.equals value.val = true) := by
  have hparse := hfloat.readable_toJson.parse?_compact
  obtain ⟨read, hread, hequal⟩ := value.tells hfloat
  refine ⟨hparse, read, ?_, hequal, fun hdata => ?_⟩
  · rw [ofJsonText?, hparse]
    simp [hdepth, hread]
  · rwa [hdata.dataView_eq] at hequal

/-- A value with a record whose two fields have one serialized name, and with keys out of order. -/
def oddValue : Value :=
  .object [
    ("z", .record 0 [(⟨"a", some "k,omitempty"⟩, .bytes [255, 0]), (⟨"k", none⟩, .int (-1))]),
    ("a\"", .list [.stream 3, .bytes [255, 0]])]

theorem wellKeyed_oddValue : oddValue.WellKeyed := by
  have hrecord : WellKeyed (.record 0
      [(⟨"a", some "k,omitempty"⟩, .bytes [255, 0]), (⟨"k", none⟩, .int (-1))]) :=
    .record (List.forall_mem_cons.2 ⟨.bytes _, List.forall_mem_singleton.2 (.int _)⟩)
  have hlist : WellKeyed (.list [.stream 3, .bytes [255, 0]]) :=
    .list (List.forall_mem_cons.2 ⟨.stream _, List.forall_mem_singleton.2 (.bytes _)⟩)
  refine .object ?_ (List.forall_mem_cons.2 ⟨hrecord, List.forall_mem_singleton.2 hlist⟩)
  simp [Entries.DistinctKeys]

theorem floatFree_oddValue : oddValue.FloatFree := by
  have hrecord : FloatFree (.record 0
      [(⟨"a", some "k,omitempty"⟩, .bytes [255, 0]), (⟨"k", none⟩, .int (-1))]) :=
    .record (List.forall_mem_cons.2 ⟨.bytes _, List.forall_mem_singleton.2 (.int _)⟩)
  have hlist : FloatFree (.list [.stream 3, .bytes [255, 0]]) :=
    .list (List.forall_mem_cons.2 ⟨.stream _, List.forall_mem_singleton.2 (.bytes _)⟩)
  exact .object (List.forall_mem_cons.2 ⟨hrecord, List.forall_mem_singleton.2 hlist⟩)

/-- The last of two fields with one name is read back, a stream as null, and bytes as numbers; a
list of data is read back as it was. -/
theorem readsBackAsData_odd :
    (∃ read, ofJsonText? oddValue.toJson.compact = some read ∧
      read.equals (.object [("z", .object [("k", .int (-1))]),
        ("a\"", .list [.null, .list [.int 255, .int 0]])]) = true) ∧
    (∃ read, ofJsonText? (list [.int (-1), .null]).toJson.compact = some read ∧
      read.equals (list [.int (-1), .null]) = true) := by
  constructor
  · obtain ⟨-, read, hread, hequal, -⟩ :=
      readsBackAsData ⟨oddValue, wellKeyed_oddValue⟩ floatFree_oddValue (by decide)
    exact ⟨read, hread, hequal⟩
  · have hkeys : (list [.int (-1), .null]).WellKeyed :=
      .list (List.forall_mem_cons.2 ⟨.int _, List.forall_mem_singleton.2 .null⟩)
    have hdata : (list [.int (-1), .null]).IsData :=
      .list (List.forall_mem_cons.2 ⟨.int _, List.forall_mem_singleton.2 .null⟩)
    have hdepth : (list [.int (-1), .null]).toJson.depth ≤ Json.maxDepth := by decide
    obtain ⟨-, read, hread, -, hequal⟩ := readsBackAsData ⟨_, hkeys⟩ hdata.floatFree hdepth
    exact ⟨read, hread, hequal hdata⟩

end Value

end GraphQuery
