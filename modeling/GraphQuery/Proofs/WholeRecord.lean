import GraphQuery.Proofs.ResolverCalls
import GraphQuery.Proofs.ValueJson

/-! # All fields of a record

A record is written as an object under the serialized names of its fields, and its fields are
selected by identifier or tag in any case, the first one declared that a name means. The two agree
where no serialized name means a field declared before: selecting all serialized names gives an
object with the text of the record (`Executor.exists_selectAt_wholeRecord`). -/

namespace GraphQuery

/-- The serialized name of a field means that field. -/
theorem FieldDescriptor.isNamed_serializedName (descriptor : FieldDescriptor) :
    descriptor.isNamed descriptor.serializedName = true := by
  rw [isNamed, serializedName]
  cases descriptor.tagName? <;> simp [sameIgnoringCase]

/-- **Fields that hide none**: the serialized name of no field means one declared before. -/
def HidesNone (fields : List (FieldDescriptor × Value)) : Prop :=
  fields.Pairwise fun earlier later => earlier.1.isNamed later.1.serializedName = false

instance (fields : List (FieldDescriptor × Value)) : Decidable (HidesNone fields) :=
  inferInstanceAs (Decidable (List.Pairwise _ fields))

/-- A later field whose tag is the identifier of one before is hidden. -/
example : ¬ HidesNone [(⟨"label", none⟩, .int 1), (⟨"title", some "label"⟩, .int 2)] := by
  decide

/-- A field that none hides is found under its serialized name. -/
theorem HidesNone.lookupField? {fields : List (FieldDescriptor × Value)} (h : HidesNone fields)
    {field : FieldDescriptor × Value} (hfield : field ∈ fields) :
    Value.lookupField? fields field.1.serializedName = some field.2 := by
  induction fields with
  | nil => cases hfield
  | cons first rest ih =>
    obtain ⟨hfirst, hrest⟩ := List.pairwise_cons.1 h
    rw [Value.lookupField?, List.find?_cons]
    rcases List.mem_cons.1 hfield with rfl | hlater
    · rw [field.1.isNamed_serializedName]
      rfl
    · rw [hfirst field hlater]
      exact ih hrest hlater

namespace Value

/-- The entries that a record is written as. -/
def recordEntries (fields : List (FieldDescriptor × Value)) : Entries Value :=
  fields.map fun field => (field.1.serializedName, field.2)

/-- A record is written as the object of its entries. -/
theorem toJson_object_recordEntries (identity : Nat) (fields : List (FieldDescriptor × Value)) :
    (object (recordEntries fields)).toJson = (record identity fields).toJson := by
  rw [toJson, toJson, entriesToJson_eq, fieldsToJson_eq, recordEntries, List.map_map]
  rfl

end Value

/-- Fields of which none is hidden have different serialized names. -/
theorem HidesNone.distinctKeys {fields : List (FieldDescriptor × Value)} (h : HidesNone fields) :
    Entries.DistinctKeys (Value.recordEntries fields) := by
  rw [Entries.DistinctKeys, Entries.keys, Value.recordEntries, List.map_map]
  refine List.pairwise_map.2 (h.imp ?_)
  intro earlier later hhidden hsame
  have hnamed := earlier.1.isNamed_serializedName
  rw [show earlier.1.serializedName = later.1.serializedName from hsame, hhidden] at hnamed
  cases hnamed

/-- **All fields of a record** are selected: by their serialized names, in the order declared, and
without nested selections. -/
def SelectsAll (selection : SelectionSet) (fields : List (FieldDescriptor × Value)) : Prop :=
  List.Forall₂ (fun selected field => selected.name = field.1.serializedName
    ∧ selected.selection = none) selection fields

namespace Executor

variable {executor : Executor} {given : Variables}

/-- Fields without nested selections yield the entries that are read under their names. -/
theorem fieldPairs_of_reflect {source : Value} {depth : Nat} {selected : List Field}
    {entries : List (String × Value)}
    (h : List.Forall₂ (fun field entry => field.name = entry.1 ∧ field.selection = none
      ∧ source.reflect entry.1 = .ok entry.2) selected entries) :
    executor.fieldPairs given (some source) depth selected = pure entries := by
  induction h with
  | nil => rw [fieldPairs]
  | @cons field entry rest entries hfield _ ih =>
    obtain ⟨hname, hplain, hreflect⟩ := hfield
    have hread : executor.resolveField (some source) field given = pure entry.2 := by
      show Execution.ofExcept (source.reflect field.name) = _
      rw [hname, hreflect]
      rfl
    rw [fieldPairs, fieldValue_eq_bind, hread, ih, hplain, hname]
    simp [nestedValue]

/-- Selecting all fields of a record that hides none of them gives its entries. -/
theorem selectAt_recordEntries {identity : Nat} {fields : List (FieldDescriptor × Value)}
    (h : HidesNone fields) {selection : SelectionSet} (hall : SelectsAll selection fields)
    {depth : Nat} (hdepth : depth ≤ executor.config.maxDepth) :
    executor.selectAt given (some (.record identity fields)) depth selection
      = pure (Value.recordEntries fields) := by
  have hpairs : executor.fieldPairs given (some (.record identity fields)) depth selection
      = pure (Value.recordEntries fields) := by
    apply fieldPairs_of_reflect
    rw [Value.recordEntries, List.forall₂_map_right_iff]
    refine List.forall₂_iff_get.2 ⟨hall.length_eq, ?_⟩
    intro index hselected hfield
    obtain ⟨hname, hplain⟩ := hall.get hselected hfield
    have hlookup := h.lookupField? (List.get_mem fields ⟨index, hfield⟩)
    exact ⟨hname, hplain, by rw [Value.reflect, hlookup]⟩
  rw [selectAt, checkDepth, if_neg (by omega), hpairs]
  simp [h.distinctKeys.ofPairs_eq]

/-- **Selecting every field of a record** gives an object with the same text as the record, if the
serialized name of no field means one declared before. -/
theorem exists_selectAt_wholeRecord (executor : Executor) (given : Variables) (identity : Nat)
    {fields : List (FieldDescriptor × Value)} (h : HidesNone fields) {selection : SelectionSet}
    (hall : SelectsAll selection fields) {depth : Nat} (hdepth : depth ≤ executor.config.maxDepth)
    (host : Host) :
    ∃ entries, executor.selectAt given (some (.record identity fields)) depth selection host
        = (.ok entries, host)
      ∧ (Value.object entries).toJson.compact = (Value.record identity fields).toJson.compact
      ∧ (Value.object entries).toJson.pretty = (Value.record identity fields).toJson.pretty := by
  have hjson := Value.toJson_object_recordEntries identity fields
  refine ⟨Value.recordEntries fields, ?_, by rw [hjson], by rw [hjson]⟩
  rw [selectAt_recordEntries h hall hdepth]
  rfl

/-- The fields of an article: tags with an option and without a name, and one that is the identifier
of a later field in another case. -/
def ofArticle : List (FieldDescriptor × Value) :=
  [(⟨"articleId", some "id,omitempty"⟩, .int 7), (⟨"heading", some "TITLE"⟩, .string "Birds"),
    (⟨"title", some "caption"⟩, .null), (⟨"tags", some ",omitempty"⟩, .list [.string "sky"])]

/-- The names that the fields of an article are written under. -/
def articleSelection : SelectionSet :=
  [⟨"id", [], none⟩, ⟨"TITLE", [], none⟩, ⟨"caption", [], none⟩, ⟨"tags", [], none⟩]

/-- An article is selected as a whole in a set on the third level. -/
theorem exists_selectAt_wholeRecord_ofArticle :
    ∃ entries, (⟨.empty, {}⟩ : Executor).selectAt .empty (some (.record 0 ofArticle)) 3
          articleSelection .empty = (.ok entries, .empty)
      ∧ (Value.object entries).toJson.compact = (Value.record 0 ofArticle).toJson.compact
      ∧ (Value.object entries).toJson.pretty = (Value.record 0 ofArticle).toJson.pretty := by
  have hnone : HidesNone ofArticle := by decide
  have hall : SelectsAll articleSelection ofArticle :=
    .cons ⟨rfl, rfl⟩ (.cons ⟨rfl, rfl⟩ (.cons ⟨rfl, rfl⟩ (.cons ⟨rfl, rfl⟩ .nil)))
  have hdepth : 3 ≤ (⟨.empty, {}⟩ : Executor).config.maxDepth := by decide
  exact exists_selectAt_wholeRecord _ .empty 0 hnone hall hdepth .empty

end Executor

end GraphQuery
