import GraphQuery.Execution

/-! # Failures of an execution

With which errors an execution can fail is put together from its parts: two executions in a row
fail as the first or as the second, a change of the records of a value as one of the changes, and
a field as its arguments, its resolver or its nested selection. In all, a selection set fails as
some field is resolved, or for its depth (`Executor.failsOnly_fieldPairs_of_resolve`). -/

namespace GraphQuery

/-! ## Steps of an execution -/

namespace Execution

variable {α β : Type} {p : ExecutionError → Prop} {x : Execution α} {host after : Host}

/-- An execution goes on from where a value was yielded. -/
theorem bind_of_ok {value : α} (h : x host = (.ok value, after)) (f : α → Execution β) :
    (x >>= f) host = f value after := by
  show ExceptT.bindCont f (x host).1 (x host).2 = _
  rw [h]
  rfl

/-- An execution ends where it fails. -/
theorem bind_of_error {error : ExecutionError} (h : x host = (.error error, after))
    (f : α → Execution β) : (x >>= f) host = (.error error, after) := by
  show ExceptT.bindCont f (x host).1 (x host).2 = _
  rw [h]
  rfl

/-- **An execution fails only** with errors of a sort, whatever its surroundings. -/
def FailsOnly (p : ExecutionError → Prop) (x : Execution α) : Prop :=
  ∀ host error, (x host).1 = .error error → p error

/-- What fails only with errors of one sort fails only with those of a broader one. -/
theorem FailsOnly.mono {q : ExecutionError → Prop} (hx : FailsOnly p x)
    (h : ∀ error, p error → q error) : FailsOnly q x :=
  fun host error herror => h error (hx host error herror)

theorem failsOnly_pure (value : α) : FailsOnly p (pure value) := by
  intro host error h
  cases h

theorem failsOnly_throw {error : ExecutionError} (h : p error) :
    FailsOnly p (throw error : Execution α) := by
  intro host other hother
  cases hother
  exact h

theorem failsOnly_ofExcept {outcome : Except ExecutionError α}
    (h : ∀ error, outcome = .error error → p error) : FailsOnly p (ofExcept outcome) := by
  cases outcome with
  | ok value => exact failsOnly_pure value
  | error error => exact failsOnly_throw (h error rfl)

theorem failsOnly_note (notice : Notice) : FailsOnly p (note notice) := by
  intro host error h
  cases h

/-- A call fails with the error of the resolver only. -/
theorem failsOnly_call {field : String} (h : ∀ message, p (.resolver field message))
    (resolver : Resolver) (source : Option Value) (arguments : Arguments) :
    FailsOnly p (call field resolver source arguments) := by
  intro host error herror
  unfold call at herror
  split at herror
  · cases herror
  · cases herror
    exact h _

/-- Two executions in a row fail as the first or as the second. -/
theorem FailsOnly.bind {f : α → Execution β} (hx : FailsOnly p x)
    (hf : ∀ value, FailsOnly p (f value)) : FailsOnly p (x >>= f) := by
  intro host error h
  change (ExceptT.bindCont f (x host).1 (x host).2).1 = .error error at h
  cases hfirst : (x host).1 with
  | error fault =>
    rw [hfirst] at h
    cases h
    exact hx host error hfirst
  | ok value =>
    rw [hfirst] at h
    exact hf value _ error h

end Execution

/-! ## Records in a value -/

namespace Value

section

variable {m n : Type → Type} [Monad m] [Monad n] {related : {α : Type} → m α → n α → Prop}
  {change : Value → m Value} {change' : Value → n Value}

mutual

/-- **Changing the records of a value** in two ways is related if each change of something
record-shaped is: what relates results, and executions in a row, relates the two in all. -/
theorem mapRecords_related (hpure : ∀ {α : Type} (a : α), related (pure a) (pure a))
    (hbind : ∀ {α β : Type} {x : m α} {y : n α} {f : α → m β} {g : α → n β},
      related x y → (∀ a, related (f a) (g a)) → related (x >>= f) (y >>= g))
    (h : ∀ record, record.isRecordShaped → related (change record) (change' record)) :
    (value : Value) → related (value.mapRecords change) (value.mapRecords change')
  | list items => hbind (mapRecordItems_related hpure hbind h items) fun _ => hpure _
  | object entries => h (object entries) rfl
  | record identity fields => h (record identity fields) rfl
  | null => hpure null
  | boolean value => hpure (boolean value)
  | int value => hpure (int value)
  | float value => hpure (float value)
  | string text => hpure (string text)
  | bytes data => hpure (bytes data)
  | stream channel => hpure (stream channel)

/-- Changing the records of the items of a list, one by one. -/
theorem mapRecordItems_related (hpure : ∀ {α : Type} (a : α), related (pure a) (pure a))
    (hbind : ∀ {α β : Type} {x : m α} {y : n α} {f : α → m β} {g : α → n β},
      related x y → (∀ a, related (f a) (g a)) → related (x >>= f) (y >>= g))
    (h : ∀ record, record.isRecordShaped → related (change record) (change' record)) :
    (items : List Value) → related (mapRecordItems change items) (mapRecordItems change' items)
  | [] => hpure []
  | item :: items => hbind (mapRecords_related hpure hbind h item) fun _ =>
      hbind (mapRecordItems_related hpure hbind h items) fun _ => hpure _

end

end

/-- Changing the records of a value fails as one of the changes. -/
theorem failsOnly_mapRecords {p : ExecutionError → Prop} {change : Value → Execution Value}
    (h : ∀ record, Execution.FailsOnly p (change record)) (value : Value) :
    Execution.FailsOnly p (value.mapRecords change) :=
  @mapRecords_related Execution Execution _ _ (fun {_} x _ => Execution.FailsOnly p x) change change
    Execution.failsOnly_pure Execution.FailsOnly.bind (fun record _ => h record) value

end Value

/-! ## Fields and selection sets -/

/-- Reading a field from a value fails because it is not there. -/
theorem Value.kind_of_reflect {source : Value} {name : String} {error : ExecutionError}
    (h : source.reflect name = .error error) : error.kind = .resolution := by
  unfold reflect at h
  split at h
  · split at h
    · cases h
    · cases h
      rfl
  · split at h
    · cases h
    · cases h
      rfl
  · cases h
    rfl

namespace Executor

open Execution

variable {executor : Executor} {given : Variables} {p : ExecutionError → Prop}

/-- Arguments that cannot be built are the fault of an argument. -/
theorem exists_argument_of_buildArguments {field : Field} {error : ExecutionError}
    (h : executor.buildArguments field given = .error error) :
    ∃ fault, error = .argument fault := by
  unfold buildArguments at h
  split at h
  · split at h
    · cases h
    · next fault hfault =>
      cases h
      exact ⟨fault, rfl⟩
  · cases h

/-- **Resolving a field** fails as building its arguments, or because it has no value. -/
theorem failsOnly_resolveField {field : Field}
    (harguments : ∀ error, executor.buildArguments field given = .error error → p error)
    (hresolution : ∀ error : ExecutionError, error.kind = .resolution → p error)
    (source : Option Value) : FailsOnly p (executor.resolveField source field given) := by
  unfold resolveField
  split
  · refine (failsOnly_ofExcept harguments).bind fun arguments => ?_
    refine (failsOnly_note _).bind fun _ => ?_
    exact failsOnly_call (fun message => hresolution _ rfl) _ source arguments
  · exact failsOnly_ofExcept fun error herror => hresolution error (Value.kind_of_reflect herror)
  · exact failsOnly_throw (hresolution _ rfl)

/-- A set is refused for its depth, and not at an allowed level. -/
theorem failsOnly_checkDepth {depth : Nat}
    (h : executor.config.maxDepth < depth → p (.maxDepthExceeded executor.config.maxDepth)) :
    FailsOnly p (executor.checkDepth depth) := by
  rw [checkDepth]
  split
  · next hdepth => exact failsOnly_throw (h hdepth)
  · exact failsOnly_pure ()

/-- A nested selection fails as it does on a record. -/
theorem failsOnly_nestedValue {depth : Nat} {selection : Option SelectionSet}
    (h : ∀ nested ∈ selection, FailsOnly p (executor.checkDepth (depth + 1))
      ∧ ∀ record, FailsOnly p (executor.fieldPairs given (some record) (depth + 1) nested))
    (value : Value) : FailsOnly p (executor.nestedValue given depth value selection) := by
  cases selection with
  | none =>
    rw [nestedValue]
    exact failsOnly_pure value
  | some nested =>
    obtain ⟨hdepth, hpairs⟩ := h nested rfl
    rw [nestedValue]
    refine Value.failsOnly_mapRecords (fun record => ?_) value
    exact hdepth.bind fun _ => (hpairs record).bind fun _ => failsOnly_pure _

/-- A field fails as it is resolved, or as its nested selection does. -/
theorem failsOnly_fieldValue {source : Option Value} {depth : Nat} {field : Field}
    (hresolve : FailsOnly p (executor.resolveField source field given))
    (hnested : ∀ value, FailsOnly p (executor.nestedValue given depth value field.selection)) :
    FailsOnly p (executor.fieldValue given source depth field) := by
  obtain ⟨name, arguments, selection⟩ := field
  rw [fieldValue]
  exact hresolve.bind hnested

/-- The fields of a set fail as one of them. -/
theorem failsOnly_fieldPairs_cons {source : Option Value} {depth : Nat} {field : Field}
    {rest : List Field} (hfield : FailsOnly p (executor.fieldValue given source depth field))
    (hrest : FailsOnly p (executor.fieldPairs given source depth rest)) :
    FailsOnly p (executor.fieldPairs given source depth (field :: rest)) := by
  rw [fieldPairs]
  exact hfield.bind fun _ => hrest.bind fun _ => failsOnly_pure _

/-- Executing a selection set at some level fails for that level, or as its fields. -/
theorem failsOnly_selectAt {source : Option Value} {depth : Nat} {selection : SelectionSet}
    (hdepth : FailsOnly p (executor.checkDepth depth))
    (hpairs : FailsOnly p (executor.fieldPairs given source depth selection)) :
    FailsOnly p (executor.selectAt given source depth selection) :=
  hdepth.bind fun _ => hpairs.bind fun _ => failsOnly_pure _

mutual

/-- A field fails as some field is resolved, or for its depth. -/
theorem failsOnly_fieldValue_of_resolve
    (hresolve : ∀ source field, FailsOnly p (executor.resolveField source field given))
    (hdepth : p (.maxDepthExceeded executor.config.maxDepth)) (source : Option Value)
    (depth : Nat) : (field : Field) → FailsOnly p (executor.fieldValue given source depth field)
  | ⟨name, arguments, selection⟩ =>
    failsOnly_fieldValue (hresolve source ⟨name, arguments, selection⟩)
      (failsOnly_nestedValue_of_resolve hresolve hdepth depth selection)

/-- So does a value with a nested selection applied to it. -/
theorem failsOnly_nestedValue_of_resolve
    (hresolve : ∀ source field, FailsOnly p (executor.resolveField source field given))
    (hdepth : p (.maxDepthExceeded executor.config.maxDepth)) (depth : Nat) :
    (selection : Option (List Field)) → (value : Value) →
      FailsOnly p (executor.nestedValue given depth value selection)
  | none => failsOnly_nestedValue nofun
  | some nested => by
    have hpairs : ∀ record,
        FailsOnly p (executor.fieldPairs given (some record) (depth + 1) nested) :=
      fun record => failsOnly_fieldPairs_of_resolve hresolve hdepth (some record) (depth + 1) nested
    apply failsOnly_nestedValue
    rintro other ⟨⟩
    exact ⟨failsOnly_checkDepth fun _ => hdepth, hpairs⟩

/-- And so do the fields of a set. -/
theorem failsOnly_fieldPairs_of_resolve
    (hresolve : ∀ source field, FailsOnly p (executor.resolveField source field given))
    (hdepth : p (.maxDepthExceeded executor.config.maxDepth)) (source : Option Value)
    (depth : Nat) : (selected : List Field) →
      FailsOnly p (executor.fieldPairs given source depth selected)
  | [] => by
    rw [fieldPairs]
    exact failsOnly_pure []
  | field :: rest =>
    failsOnly_fieldPairs_cons
      (failsOnly_fieldValue_of_resolve hresolve hdepth source depth field)
      (failsOnly_fieldPairs_of_resolve hresolve hdepth source depth rest)

end

end Executor

end GraphQuery
