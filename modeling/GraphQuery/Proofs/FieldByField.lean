import GraphQuery.Execution
import GraphQuery.Proofs.Entries

/-! # Execution field by field

What a field of a selection set yields depends on that field alone, and what the set yields can be
put together from what its fields yield. `Reference` says so without an order of execution and
without surroundings: a set has all the values of its fields, or the failure of the first field
that fails. With **pure** resolvers, execution yields just that. -/

namespace GraphQuery

/-! ## Outcomes -/

/-- **An outcome**: a value or an error. -/
abbrev Outcome (α : Type) := Except ExecutionError α

namespace Outcome

variable {α β : Type}

/-- Changing the value twice. -/
theorem map_map {γ : Type} (outcome : Outcome α) (f : α → β) (g : β → γ) :
    (outcome.map f).map g = outcome.map fun value => g (f value) := by
  cases outcome <;> rfl

/-- The error of an outcome that is one. -/
def failure? : Outcome α → Option ExecutionError
  | .error error => some error
  | .ok _ => none

/-- The value of an outcome that is no error. -/
def success? : Outcome α → Option α
  | .error _ => none
  | .ok value => some value

/-- **Outcomes in a row**: the values of all of them, or the failure of the first one that
fails. -/
def all (outcomes : List (Outcome α)) : Outcome (List α) :=
  match outcomes.findSome? failure? with
  | some error => .error error
  | none => .ok (outcomes.filterMap success?)

@[simp] theorem all_nil : all ([] : List (Outcome α)) = .ok [] := rfl

/-- After a failure nothing counts. -/
@[simp] theorem all_error (error : ExecutionError) (outcomes : List (Outcome α)) :
    all (.error error :: outcomes) = .error error := rfl

/-- A value comes before those of the following outcomes. -/
@[simp] theorem all_ok (value : α) (outcomes : List (Outcome α)) :
    all (.ok value :: outcomes) = (all outcomes).map fun values => value :: values := by
  have hfailure : List.findSome? failure? (.ok value :: outcomes)
      = outcomes.findSome? failure? := rfl
  rw [all, all, hfailure]
  cases outcomes.findSome? failure? <;> rfl

end Outcome

/-! ## The reference semantics -/

namespace Reference

mutual

/-- **A value with its records changed**: in a list, each item is changed, and the first failure
counts; what is neither a list nor record-shaped stays as it is. -/
def narrowed (change : Value → Outcome Value) : Value → Outcome Value
  | .list items => (Outcome.all (narrowedItems change items)).map .list
  | .object entries => change (.object entries)
  | .record identity fields => change (.record identity fields)
  | .null => .ok .null
  | .boolean value => .ok (.boolean value)
  | .int value => .ok (.int value)
  | .float value => .ok (.float value)
  | .string text => .ok (.string text)
  | .bytes data => .ok (.bytes data)
  | .stream channel => .ok (.stream channel)

/-- The items of a list, each with its records changed. -/
def narrowedItems (change : Value → Outcome Value) : List Value → List (Outcome Value)
  | [] => []
  | item :: items => narrowed change item :: narrowedItems change items

end

/-- The items of a list are changed one by one. -/
theorem narrowedItems_eq_map (change : Value → Outcome Value) (items : List Value) :
    narrowedItems change items = items.map (narrowed change) := by
  induction items with
  | nil => rfl
  | cons item items ih => rw [narrowedItems, ih, List.map_cons]

section

variable (resolve : Option Value → Field → Outcome Value) (maxDepth : Nat)

mutual

/-- **What a field yields on its own**, as part of a set at level `depth`. -/
def field (source : Option Value) (depth : Nat) : Field → Outcome Value
  | ⟨name, arguments, selection⟩ =>
    match resolve source ⟨name, arguments, selection⟩ with
    | .error error => .error error
    | .ok value => nested depth value selection

/-- A value with the selection nested in a set at level `depth` applied to it. -/
def nested (depth : Nat) (value : Value) : Option (List Field) → Outcome Value
  | none => .ok value
  | some selected => narrowed (fun record =>
      if maxDepth < depth + 1 then .error (.maxDepthExceeded maxDepth)
      else (Outcome.all (fields (some record) (depth + 1) selected)).map fun values =>
        .object (Entries.lastWrites ((selected.map Field.name).zip values))) value

/-- What each field of a set at level `depth` yields on its own. -/
def fields (source : Option Value) (depth : Nat) : List Field → List (Outcome Value)
  | [] => []
  | first :: rest => field source depth first :: fields source depth rest

end

/-- **What a selection set yields** at level `depth`: each name where it first appears, with the
value of the last field of that name, or the failure of the first field that fails. -/
def selection (source : Option Value) (depth : Nat) (selected : List Field) :
    Outcome (Entries Value) :=
  if maxDepth < depth then .error (.maxDepthExceeded maxDepth)
  else (Outcome.all (selected.map (field resolve maxDepth source depth))).map fun values =>
    Entries.lastWrites ((selected.map Field.name).zip values)

variable {resolve : Option Value → Field → Outcome Value} {maxDepth : Nat}

/-- The fields of a set are taken one by one. -/
theorem fields_eq_map (source : Option Value) (depth : Nat) (selected : List Field) :
    fields resolve maxDepth source depth selected
      = selected.map (field resolve maxDepth source depth) := by
  induction selected with
  | nil => rfl
  | cons first rest ih => rw [fields, ih, List.map_cons]

/-- A nested selection puts in the place of each record what the selection set yields on it. -/
theorem nested_some (depth : Nat) (value : Value) (selected : List Field) :
    nested resolve maxDepth depth value (some selected)
      = narrowed (fun record =>
          (selection resolve maxDepth (some record) (depth + 1) selected).map .object) value := by
  rw [nested]
  congr 1
  funext record
  rw [selection, fields_eq_map]
  split
  · rfl
  · cases Outcome.all (selected.map (field resolve maxDepth (some record) (depth + 1))) <;> rfl

end

end Reference

/-! ## Executions -/

namespace Execution

variable {α β : Type} {x : Execution α}

/-- **What an execution yields**, whatever its surroundings. -/
def Yields (x : Execution α) (outcome : Outcome α) : Prop := ∀ host, (x host).1 = outcome

/-- A value yields itself. -/
theorem yields_pure (value : α) : Yields (pure value) (.ok value) := fun _ => rfl

/-- An error yields itself. -/
theorem yields_throw (error : ExecutionError) : Yields (throw error : Execution α) (.error error) :=
  fun _ => rfl

/-- What may have failed yields itself. -/
theorem yields_ofExcept (outcome : Outcome α) : Yields (ofExcept outcome) outcome := by
  cases outcome with
  | ok value => exact yields_pure value
  | error error => exact yields_throw error

/-- After an error nothing is executed. -/
theorem Yields.bind_error {error : ExecutionError} (hx : Yields x (.error error))
    (f : α → Execution β) : Yields (x >>= f) (.error error) := by
  intro host
  show (ExceptT.bindCont f (x host).1 (x host).2).1 = _
  rw [hx host]
  rfl

/-- After a value, execution goes on with it. -/
theorem Yields.bind_ok {value : α} {f : α → Execution β} {outcome : Outcome β}
    (hx : Yields x (.ok value)) (hf : Yields (f value) outcome) : Yields (x >>= f) outcome := by
  intro host
  show (ExceptT.bindCont f (x host).1 (x host).2).1 = _
  rw [hx host]
  exact hf _

/-- What follows an execution changes the value that it yields. -/
theorem Yields.bind_pure {outcome : Outcome α} (hx : Yields x outcome) (f : α → β) :
    Yields (x >>= fun value => pure (f value)) (outcome.map f) := by
  cases outcome with
  | ok value => exact hx.bind_ok (yields_pure (f value))
  | error error => exact hx.bind_error _

/-- One more execution in a row yields one more outcome in a row. -/
theorem Yields.bind_all {outcome : Outcome α} {outcomes : List (Outcome α)} {xs : Execution β}
    {ofValues ofMore : List α → β} {add : α → β → β} (hx : Yields x outcome)
    (hxs : Yields xs ((Outcome.all outcomes).map ofValues))
    (hadd : ∀ value values, add value (ofValues values) = ofMore (value :: values)) :
    Yields (x >>= fun value => xs >>= fun more => pure (add value more))
      ((Outcome.all (outcome :: outcomes)).map ofMore) := by
  cases outcome with
  | error error => exact hx.bind_error _
  | ok value =>
    refine hx.bind_ok ?_
    have hmore := hxs.bind_pure (add value)
    rw [Outcome.all_ok]
    -- The first outcome is a value, so that the others decide.
    cases hall : Outcome.all outcomes with
    | error error =>
      rw [hall] at hmore
      exact hmore
    | ok values =>
      rw [hall] at hmore
      show Yields _ (.ok (ofMore (value :: values)))
      rw [← hadd]
      exact hmore

end Execution

namespace Value

open Execution

variable {change : Value → Execution Value} {outcome : Value → Outcome Value}

mutual

/-- **Changing the records of a value** yields what the reference puts together from the
changes. -/
theorem yields_mapRecords (h : ∀ record, Yields (change record) (outcome record)) :
    (value : Value) → Yields (value.mapRecords change) (Reference.narrowed outcome value)
  | list items => (yields_mapRecordItems h items).bind_pure list
  | object entries => h (object entries)
  | record identity fields => h (record identity fields)
  | null => yields_pure null
  | boolean value => yields_pure (boolean value)
  | int value => yields_pure (int value)
  | float value => yields_pure (float value)
  | string text => yields_pure (string text)
  | bytes data => yields_pure (bytes data)
  | stream channel => yields_pure (stream channel)

/-- Changing the records of the items of a list, one by one. -/
theorem yields_mapRecordItems (h : ∀ record, Yields (change record) (outcome record)) :
    (items : List Value) → Yields (mapRecordItems change items)
      (Outcome.all (Reference.narrowedItems outcome items))
  | [] => yields_pure []
  | item :: items => by
    have hitems : Yields (mapRecordItems change items)
        ((Outcome.all (Reference.narrowedItems outcome items)).map id) := by
      rw [Except.map_id]
      exact yields_mapRecordItems h items
    have hall : Yields (mapRecordItems change (item :: items))
        ((Outcome.all (Reference.narrowedItems outcome (item :: items))).map id) :=
      (yields_mapRecords h item).bind_all hitems fun _ _ => rfl
    rwa [Except.map_id] at hall

end

end Value

/-! ## Pure resolvers -/

/-- **A pure resolver** answers by its parent value and its arguments alone, and leaves the hub as
it is. -/
def Resolver.IsPure (resolver : Resolver) : Prop :=
  ∃ answer : Option Value → Arguments → Except ResolverError Value,
    ∀ source arguments hub, resolver source arguments hub = (answer source arguments, hub)

/-- **A registry of pure resolvers.** -/
def Registry.IsPure (registry : Registry) : Prop :=
  ∀ kind name resolver, registry.lookup? kind name = some resolver → resolver.IsPure

namespace Registry

/-- A registry without resolvers is pure. -/
theorem isPure_empty : empty.IsPure := by
  intro kind name resolver h
  cases kind <;> simp [lookup?, empty, resolvers] at h

/-- Registering a pure resolver keeps a registry pure. -/
theorem IsPure.register {registry : Registry} (h : registry.IsPure) (kind : OperationKind)
    (name : String) {resolver : Resolver} (hpure : resolver.IsPure) :
    (registry.register kind name resolver).IsPure := by
  intro kind' name' found hfound
  rw [lookup?_register] at hfound
  split at hfound
  · obtain rfl : resolver = found := by simpa using hfound
    exact hpure
  · exact h kind' name' found hfound

end Registry

namespace Executor

variable {executor : Executor}

/-- **What resolving a field yields**, before any nested selection. -/
def resolved (executor : Executor) (given : Variables) (source : Option Value) (field : Field) :
    Outcome Value :=
  (executor.resolveField source field given .empty).1

/-- The resolver of a root field is among those registered. -/
theorem isPure_of_fieldSource? (hpure : executor.registry.IsPure) {source : Option Value}
    {name : String} {resolver : Resolver}
    (h : executor.fieldSource? source name = some (.resolver resolver)) : resolver.IsPure := by
  unfold fieldSource? at h
  split at h
  · simp at h
  · split at h
    · next found hfound =>
      obtain rfl : found = resolver := by simpa using h
      exact hpure .query name found hfound
    · obtain ⟨found, hfound, hsource⟩ := Option.map_eq_some_iff.1 h
      obtain rfl : found = resolver := by simpa using hsource
      exact hpure .mutation name found hfound

/-- **Resolving a field** yields the same whatever the surroundings. -/
theorem yields_resolveField (hpure : executor.registry.IsPure) (given : Variables)
    (source : Option Value) (field : Field) :
    (executor.resolveField source field given).Yields (executor.resolved given source field) := by
  intro host
  unfold resolved resolveField
  cases hsource : executor.fieldSource? source field.name with
  | none => rfl
  | some found =>
    cases found with
    | reflected parent =>
      have hyields := Execution.yields_ofExcept (parent.reflect field.name)
      exact (hyields host).trans (hyields .empty).symm
    | resolver resolver =>
      -- Only the resolver can look at the surroundings, and it does not.
      obtain ⟨answer, hanswer⟩ := isPure_of_fieldSource? hpure hsource
      cases executor.buildArguments field given with
      | error fault => rfl
      | ok arguments =>
        show (Execution.call field.name resolver source arguments _).1
          = (Execution.call field.name resolver source arguments _).1
        unfold Execution.call Host.onHub
        rw [hanswer, hanswer]
        cases answer source arguments <;> rfl

/-- A selection set yields what is put together from what its fields yield, and then whatever is
made of its entries. -/
theorem yields_selection {given : Variables} {source : Option Value} {depth : Nat}
    {selected : List Field} {α : Type}
    (hpairs : (executor.fieldPairs given source depth selected).Yields
      ((Outcome.all (selected.map
        (Reference.field (executor.resolved given) executor.config.maxDepth source depth))).map
        fun values => (selected.map Field.name).zip values))
    (make : Entries Value → α) :
    Execution.Yields
      (do
        executor.checkDepth depth
        let pairs ← executor.fieldPairs given source depth selected
        return make (Entries.ofPairs pairs))
      ((Reference.selection (executor.resolved given) executor.config.maxDepth source depth
        selected).map make) := by
  -- Either both refuse the depth, or both go on.
  rw [checkDepth, Reference.selection]
  split
  · exact (Execution.yields_throw _).bind_error _
  · refine (Execution.yields_pure ()).bind_ok ?_
    have hmade := hpairs.bind_pure fun pairs => make (Entries.ofPairs pairs)
    simpa only [Outcome.map_map, Entries.ofPairs_eq_lastWrites] using hmade

mutual

/-- **A field yields** what the reference says. -/
theorem yields_fieldValue (hpure : executor.registry.IsPure) (given : Variables)
    (source : Option Value) (depth : Nat) :
    (field : Field) → (executor.fieldValue given source depth field).Yields
      (Reference.field (executor.resolved given) executor.config.maxDepth source depth field)
  | ⟨name, arguments, selection⟩ => by
    have hresolved := yields_resolveField hpure given source ⟨name, arguments, selection⟩
    rw [fieldValue, Reference.field]
    -- If the field cannot be resolved, its nested selection does not count.
    cases hvalue : executor.resolved given source ⟨name, arguments, selection⟩ with
    | error error =>
      rw [hvalue] at hresolved
      exact hresolved.bind_error _
    | ok value =>
      rw [hvalue] at hresolved
      exact hresolved.bind_ok (yields_nestedValue hpure given depth value selection)

/-- A value with a nested selection applied to it yields what the reference says. -/
theorem yields_nestedValue (hpure : executor.registry.IsPure) (given : Variables) (depth : Nat)
    (value : Value) : (selection : Option (List Field)) →
      (executor.nestedValue given depth value selection).Yields
        (Reference.nested (executor.resolved given) executor.config.maxDepth depth value selection)
  | none => by
    rw [nestedValue, Reference.nested]
    exact Execution.yields_pure value
  | some selected => by
    rw [nestedValue, Reference.nested_some]
    refine Value.yields_mapRecords (fun record => ?_) value
    exact yields_selection (yields_fieldPairs hpure given (some record) (depth + 1) selected) _

/-- The fields of a set yield what each of them yields on its own. -/
theorem yields_fieldPairs (hpure : executor.registry.IsPure) (given : Variables)
    (source : Option Value) (depth : Nat) : (selected : List Field) →
      (executor.fieldPairs given source depth selected).Yields
        ((Outcome.all (selected.map
          (Reference.field (executor.resolved given) executor.config.maxDepth source depth))).map
          fun values => (selected.map Field.name).zip values)
  | [] => by
    rw [fieldPairs]
    exact Execution.yields_pure []
  | first :: rest => by
    rw [fieldPairs]
    exact (yields_fieldValue hpure given source depth first).bind_all
      (yields_fieldPairs hpure given source depth rest) fun _ _ => rfl

end

/-- Executing a selection set at level `depth` yields what the reference says. -/
theorem yields_selectAt (hpure : executor.registry.IsPure) (given : Variables)
    (source : Option Value) (depth : Nat) (selected : SelectionSet) :
    (executor.selectAt given source depth selected).Yields
      (Reference.selection (executor.resolved given) executor.config.maxDepth source depth
        selected) := by
  have hentries := yields_selection (yields_fieldPairs hpure given source depth selected) id
  rwa [Except.map_id] at hentries

/-- **Execution agrees with the reference semantics**, in whatever surroundings, as long as the
resolvers are pure. -/
theorem select_eq_reference (hpure : executor.registry.IsPure) (given : Variables)
    (source : Option Value) (selected : SelectionSet) (host : Host) :
    (executor.select given source selected host).1
      = Reference.selection (executor.resolved given) executor.config.maxDepth source 1 selected :=
  yields_selectAt hpure given source 1 selected host

/-- An executor with one resolver, which answers a list of an object, null and another list. -/
def ofPeople : Executor where
  registry := Registry.empty.register .query "people" fun _ _ hub =>
    (.ok (.list [.object [("name", .string "Ann"), ("age", .int 7)], .null, .list [.int 1]]), hub)
  config := {}

/-- A field that is selected twice, with a nested selection the second time. -/
theorem select_ofPeople :
    (ofPeople.select .empty none [⟨"people", [], none⟩, ⟨"people", [],
        some [⟨"age", [], none⟩, ⟨"Name", [], none⟩]⟩] .empty).1
      = .ok [("people", .list [.object [("age", .int 7), ("Name", .string "Ann")], .null,
          .list [.int 1]])] := by
  have hpure : ofPeople.registry.IsPure :=
    Registry.isPure_empty.register .query "people" ⟨fun _ _ => .ok _, fun _ _ _ => rfl⟩
  rw [select_eq_reference hpure]
  rfl

end Executor

end GraphQuery
