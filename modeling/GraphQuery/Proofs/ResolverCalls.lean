import GraphQuery.Proofs.Strictness

/-! # The calls of resolvers

Executing a document calls resolvers for its root fields, one after the other in the order written,
and does nothing else to its surroundings. That is said with a list of **calls**: the surroundings
in which an execution ends are those that the calls leave, and the log tells of the same calls
(`Executor.MakesCalls`).

Nested selections only read. They neither look at their surroundings nor change them, and they come
out alike whatever resolvers are registered (`Executor.readAlike_nestedValue`), so that no call is
made for a nested field. What happens to one root field is said once (`Executor.fieldValue_root`),
and from it, by induction on the root fields, what a whole run does. -/

namespace GraphQuery

/-! ## Executions that only read -/

namespace Execution

variable {α β : Type} {p : ExecutionError → Prop} {x y : Execution α}

/-- What may have failed leaves its surroundings alone. -/
theorem ofExcept_apply (outcome : Outcome α) (host : Host) :
    ofExcept outcome host = (outcome, host) := by
  cases outcome <;> rfl

/-- **Two executions read alike**: neither looks at its surroundings or changes them, and both have
the same outcome, which is an error of some sort if it is one. -/
def ReadAlike (p : ExecutionError → Prop) (x y : Execution α) : Prop :=
  ∃ outcome : Outcome α, x = ofExcept outcome ∧ y = ofExcept outcome
    ∧ ∀ error, outcome = .error error → p error

theorem readAlike_pure (value : α) : ReadAlike p (pure value) (pure value) :=
  ⟨.ok value, rfl, rfl, nofun⟩

theorem readAlike_throw {error : ExecutionError} (h : p error) :
    ReadAlike p (throw error : Execution α) (throw error) := by
  refine ⟨.error error, rfl, rfl, ?_⟩
  rintro _ ⟨⟩
  exact h

theorem readAlike_ofExcept {outcome : Outcome α} (h : ∀ error, outcome = .error error → p error) :
    ReadAlike p (ofExcept outcome) (ofExcept outcome) :=
  ⟨outcome, rfl, rfl, h⟩

/-- Two executions in a row read alike if both parts do. -/
theorem ReadAlike.bind {f g : α → Execution β} (h : ReadAlike p x y)
    (hnext : ∀ value, ReadAlike p (f value) (g value)) : ReadAlike p (x >>= f) (y >>= g) := by
  obtain ⟨outcome, rfl, rfl, hfails⟩ := h
  cases outcome with
  | ok value => exact hnext value
  | error error =>
    refine ⟨.error error, rfl, rfl, ?_⟩
    rintro _ ⟨⟩
    exact hfails error rfl

end Execution

/-- Changes of the records of a value read alike if each change of a record does. -/
theorem Value.readAlike_mapRecords {p : ExecutionError → Prop}
    {change change' : Value → Execution Value}
    (h : ∀ record, Execution.ReadAlike p (change record) (change' record)) (value : Value) :
    Execution.ReadAlike p (value.mapRecords change) (value.mapRecords change') :=
  @mapRecords_related Execution Execution _ _ (fun {_} x y => Execution.ReadAlike p x y) change
    change' Execution.readAlike_pure Execution.ReadAlike.bind (fun record _ => h record) value

/-! ## Nested selections -/

/-- **The errors that precede a call**: there is no resolver, or no arguments for it. -/
def ExecutionError.precedesCall : ExecutionError → Bool
  | resolverNotFound _ | argument _ => true
  | _ => false

/-- Reading a field from a value comes after all calls. -/
theorem Value.precedesCall_of_reflect {source : Value} {name : String} {error : ExecutionError}
    (h : source.reflect name = .error error) : error.precedesCall = false := by
  unfold reflect at h
  split at h
  · split at h <;> cases h
    rfl
  · split at h <;> cases h
    rfl
  · cases h
    rfl

namespace Executor

open Execution

variable {executor : Executor} {registry : Registry} {given : Variables}

/-- An executor with other resolvers. -/
def withRegistry (executor : Executor) (registry : Registry) : Executor :=
  { executor with registry }

mutual

/-- **Nested fields** read alike, whatever resolvers are registered. -/
theorem readAlike_fieldValue (parent : Value) (depth : Nat) : (field : Field) →
    ReadAlike (fun error => error.precedesCall = false)
      (executor.fieldValue given (some parent) depth field)
      ((executor.withRegistry registry).fieldValue given (some parent) depth field)
  | ⟨name, arguments, selection⟩ => by
    rw [fieldValue, fieldValue]
    exact (readAlike_ofExcept fun _ => Value.precedesCall_of_reflect).bind fun value =>
      readAlike_nestedValue depth value selection

/-- So does a value with a nested selection applied to it. -/
theorem readAlike_nestedValue (depth : Nat) (value : Value) : (selection : Option (List Field)) →
    ReadAlike (fun error => error.precedesCall = false)
      (executor.nestedValue given depth value selection)
      ((executor.withRegistry registry).nestedValue given depth value selection)
  | none => by
    rw [nestedValue, nestedValue]
    exact readAlike_pure value
  | some fields => by
    have hdepth : ReadAlike (fun error => error.precedesCall = false)
        (executor.checkDepth (depth + 1))
        ((executor.withRegistry registry).checkDepth (depth + 1)) := by
      show ReadAlike _ (executor.checkDepth (depth + 1)) (executor.checkDepth (depth + 1))
      rw [checkDepth]
      split
      · exact readAlike_throw rfl
      · exact readAlike_pure ()
    rw [nestedValue, nestedValue]
    refine Value.readAlike_mapRecords (fun record => ?_) value
    refine hdepth.bind fun _ => ?_
    exact (readAlike_fieldPairs record (depth + 1) fields).bind fun _ => readAlike_pure _

/-- And so do the fields of a nested set. -/
theorem readAlike_fieldPairs (parent : Value) (depth : Nat) : (fields : List Field) →
    ReadAlike (fun error => error.precedesCall = false)
      (executor.fieldPairs given (some parent) depth fields)
      ((executor.withRegistry registry).fieldPairs given (some parent) depth fields)
  | [] => by
    rw [fieldPairs, fieldPairs]
    exact readAlike_pure []
  | field :: rest => by
    rw [fieldPairs, fieldPairs]
    refine (readAlike_fieldValue parent depth field).bind fun _ => ?_
    exact (readAlike_fieldPairs parent depth rest).bind fun _ => readAlike_pure _

end

end Executor

/-! ## Calls -/

/-- **A call** of a resolver for a root field. -/
structure ResolverCall where
  /-- The name of the field. -/
  field : String
  /-- The resolver. -/
  resolver : Resolver
  /-- The arguments that it is given. -/
  arguments : Arguments

/-- The field whose resolver is called, as the log tells it. -/
def Notice.calledField? : Notice → Option String
  | callingResolver field => some field
  | _ => none

/-- **The calls that the log tells of**, by their fields. -/
def Host.called (host : Host) : List String := host.log.toList.filterMap Notice.calledField?

/-- What is done on the hub calls no resolver: channels report other things. -/
theorem Host.called_onHub {α : Type} (act : StateM Hub α) (host : Host) :
    (Host.onHub act host).2.called = host.called := by
  have hchannels : ∀ notices : List ChannelNotice,
      (notices.map Notice.channel).filterMap Notice.calledField? = [] := by
    intro notices
    rw [List.filterMap_map]
    exact List.filterMap_eq_nil_iff.2 fun _ _ => rfl
  show (host.log ++ _).toList.filterMap _ = _
  rw [Array.toList_append, List.filterMap_append, hchannels, List.append_nil]
  rfl

/-- A call leaves what its resolver does on the hub, whatever it answers. -/
theorem Execution.call_snd (field : String) (resolver : Resolver) (source : Option Value)
    (arguments : Arguments) (host : Host) :
    (call field resolver source arguments host).2
      = (Host.onHub (resolver source arguments) host).2 := by
  unfold call
  split
  · next hanswer => rw [hanswer]
  · next hanswer => rw [hanswer]

namespace ResolverCall

/-- **Makes a call**: it is noted, and the resolver acts on the hub. -/
def make (call : ResolverCall) : Execution Value := do
  Execution.note (.callingResolver call.field)
  Execution.call call.field call.resolver none call.arguments

/-- **What calls leave**, one made after the other. -/
def leave (host : Host) (calls : List ResolverCall) : Host :=
  calls.foldl (fun host call => (call.make host).2) host

@[simp] theorem leave_nil (host : Host) : leave host [] = host := rfl

@[simp] theorem leave_cons (host : Host) (call : ResolverCall) (calls : List ResolverCall) :
    leave host (call :: calls) = leave (call.make host).2 calls := rfl

/-- A call fails because its resolver does. -/
theorem precedesCall_of_make (call : ResolverCall) :
    Execution.FailsOnly (fun error => error.precedesCall = false) call.make :=
  (Execution.failsOnly_note _).bind fun _ => Execution.failsOnly_call (fun _ => rfl) _ _ _

/-- The log tells of a call that is made. -/
theorem called_make (call : ResolverCall) (host : Host) :
    (call.make host).2.called = host.called ++ [call.field] := by
  show (Execution.call call.field call.resolver none call.arguments
    (Host.note (.callingResolver call.field) host).2).2.called = _
  rw [Execution.call_snd, Host.called_onHub]
  simp [Host.called, Host.note, Notice.calledField?]

/-- The log tells of the calls in the order in which they are made. -/
theorem called_leave (host : Host) (calls : List ResolverCall) :
    (leave host calls).called = host.called ++ calls.map field := by
  induction calls generalizing host with
  | nil => simp
  | cons call calls ih => rw [leave_cons, ih, called_make, List.map_cons, List.append_assoc]; rfl

end ResolverCall

/-- **The resolver of a root field**: that of a query of the name, or failing that of a mutation. -/
def Registry.rootResolver? (registry : Registry) (name : String) : Option Resolver :=
  (registry.lookup? .query name).or (registry.lookup? .mutation name)

namespace Executor

open Execution

variable {executor : Executor} {given : Variables}

/-- **A call answers a root field** if it is that of the resolver for the field, with the arguments
that are built for it. -/
structure Answers (executor : Executor) (given : Variables) (field : Field) (call : ResolverCall) :
    Prop where
  /-- The log tells of the call by the field's name. -/
  name : call.field = field.name
  /-- The resolver is the one registered for a query of exactly that name, or failing that for a
  mutation. -/
  resolver : executor.registry.rootResolver? field.name = some call.resolver
  /-- The arguments are those of the field. -/
  arguments : executor.buildArguments field given = .ok call.arguments

/-- A root field gets its value from a resolver. -/
theorem fieldSource?_none (name : String) :
    executor.fieldSource? none name = (executor.registry.rootResolver? name).map .resolver := by
  unfold fieldSource? Registry.rootResolver?
  cases executor.registry.lookup? .query name <;> rfl

/-- A field is resolved, and then its nested selection is applied. -/
theorem fieldValue_eq_bind (source : Option Value) (depth : Nat) (field : Field) :
    executor.fieldValue given source depth field
      = executor.resolveField source field given >>= fun value =>
          executor.nestedValue given depth value field.selection := by
  obtain ⟨name, arguments, selection⟩ := field
  rw [fieldValue]

/-- A root field that a call answers gets the value that the call answers, narrowed to the nested
selection. -/
theorem Answers.fieldValue_eq {field : Field} {call : ResolverCall}
    (h : executor.Answers given field call) :
    executor.fieldValue given none 1 field
      = call.make >>= fun value => executor.nestedValue given 1 value field.selection := by
  rw [fieldValue_eq_bind, resolveField, fieldSource?_none, h.resolver]
  simp only [Option.map_some, h.arguments, ← h.name]
  rfl

/-- **What happens to a root field**: either there is no resolver or there are no arguments for it,
and nothing happens, or its resolver is called, and nothing but that happens. -/
theorem fieldValue_root (executor : Executor) (given : Variables) (field : Field) (host : Host) :
    (∃ error, error.precedesCall = true
        ∧ executor.fieldValue given none 1 field host = (.error error, host))
      ∨ ∃ call outcome, executor.Answers given field call
        ∧ executor.fieldValue given none 1 field host = (outcome, (call.make host).2)
        ∧ ∀ error, outcome = .error error → error.precedesCall = false := by
  cases hresolver : executor.registry.rootResolver? field.name with
  | none =>
    refine .inl ⟨.resolverNotFound field.name, rfl, ?_⟩
    rw [fieldValue_eq_bind, resolveField, fieldSource?_none, hresolver]
    rfl
  | some resolver =>
    cases hbuild : executor.buildArguments field given with
    | error error =>
      obtain ⟨fault, rfl⟩ := exists_argument_of_buildArguments hbuild
      refine .inl ⟨.argument fault, rfl, ?_⟩
      rw [fieldValue_eq_bind, resolveField, fieldSource?_none, hresolver]
      simp only [Option.map_some, hbuild]
      rfl
    | ok arguments =>
      have hanswers : executor.Answers given field ⟨field.name, resolver, arguments⟩ :=
        ⟨rfl, hresolver, hbuild⟩
      refine .inr ⟨⟨field.name, resolver, arguments⟩, ?_⟩
      rw [hanswers.fieldValue_eq]
      cases hmake : ResolverCall.make ⟨field.name, resolver, arguments⟩ host with
      | mk answer after =>
        cases answer with
        | error error =>
          refine ⟨.error error, hanswers, bind_of_error hmake _, ?_⟩
          rintro _ ⟨⟩
          exact ResolverCall.precedesCall_of_make _ host error (congrArg Prod.fst hmake)
        | ok value =>
          -- The nested selection reads the value, in the surroundings that the call leaves.
          obtain ⟨outcome, hnested, -, hfails⟩ := @readAlike_nestedValue executor executor.registry
            given 1 value field.selection
          refine ⟨outcome, hanswers, ?_, hfails⟩
          rw [bind_of_ok hmake, hnested, ofExcept_apply]

/-! ## Runs over root fields -/

section Run

variable {field : Field} {rest : List Field} {host after : Host} {index : Nat}
  {error : ExecutionError}

/-- A set fails at its first field. -/
theorem fieldPairs_of_error {source : Option Value} {depth : Nat}
    (h : executor.fieldValue given source depth field host = (.error error, after))
    (rest : List Field) :
    executor.fieldPairs given source depth (field :: rest) host = (.error error, after) := by
  rw [fieldPairs]
  exact bind_of_error h _

/-- A set goes on after its first field. -/
theorem fieldPairs_of_ok {source : Option Value} {depth : Nat} {value : Value}
    (h : executor.fieldValue given source depth field host = (.ok value, after))
    (rest : List Field) :
    executor.fieldPairs given source depth (field :: rest) host
      = ((executor.fieldPairs given source depth rest after).1.map fun pairs =>
            (field.name, value) :: pairs,
          (executor.fieldPairs given source depth rest after).2) := by
  rw [fieldPairs, bind_of_ok h]
  cases hrest : executor.fieldPairs given source depth rest after with
  | mk outcome last =>
    cases outcome with
    | error error => exact bind_of_error hrest _
    | ok pairs => exact bind_of_ok hrest _

/-- **Root fields fail at one of them**: without it and what follows they succeed, and with it they
fail. -/
def FieldsFailAt (executor : Executor) (given : Variables) (fields : List Field) (host : Host)
    (index : Nat) (error : ExecutionError) : Prop :=
  (∃ pairs, (executor.fieldPairs given none 1 (fields.take index) host).1 = .ok pairs)
    ∧ (executor.fieldPairs given none 1 (fields.take (index + 1)) host).1 = .error error

/-- Where the first root field fails, they fail there and nowhere else. -/
theorem fieldsFailAt_cons_of_error {fault : ExecutionError}
    (h : executor.fieldValue given none 1 field host = (.error fault, after)) :
    executor.FieldsFailAt given (field :: rest) host index error ↔ index = 0 ∧ error = fault := by
  constructor
  · rintro ⟨⟨pairs, hpairs⟩, herror⟩
    cases index with
    | zero =>
      rw [List.take_succ_cons, fieldPairs_of_error h] at herror
      cases herror
      exact ⟨rfl, rfl⟩
    | succ index =>
      rw [List.take_succ_cons, fieldPairs_of_error h] at hpairs
      cases hpairs
  · rintro ⟨rfl, rfl⟩
    refine ⟨⟨[], by rw [List.take_zero, fieldPairs]; rfl⟩, ?_⟩
    rw [List.take_succ_cons, fieldPairs_of_error h]

/-- Where the first root field succeeds, they fail where the others do. -/
theorem fieldsFailAt_cons_of_ok {value : Value}
    (h : executor.fieldValue given none 1 field host = (.ok value, after)) :
    executor.FieldsFailAt given (field :: rest) host index error
      ↔ ∃ later, index = later + 1 ∧ executor.FieldsFailAt given rest after later error := by
  -- The fields up to some number are the first one and the others up to one less.
  have htake : ∀ count, (executor.fieldPairs given none 1 ((field :: rest).take (count + 1)) host).1
      = (executor.fieldPairs given none 1 (rest.take count) after).1.map fun pairs =>
          (field.name, value) :: pairs := by
    intro count
    rw [List.take_succ_cons, fieldPairs_of_ok h]
  constructor
  · rintro ⟨⟨pairs, hpairs⟩, herror⟩
    cases index with
    | zero =>
      rw [htake, List.take_zero, fieldPairs] at herror
      cases herror
    | succ later =>
      rw [htake] at hpairs herror
      refine ⟨later, rfl, ?_, Outcome.map_eq_error_iff.1 herror⟩
      cases hlater : (executor.fieldPairs given none 1 (rest.take later) after).1 with
      | error fault =>
        rw [hlater] at hpairs
        cases hpairs
      | ok more => exact ⟨more, rfl⟩
  · rintro ⟨later, rfl, ⟨pairs, hpairs⟩, herror⟩
    refine ⟨⟨(field.name, value) :: pairs, ?_⟩, ?_⟩
    · rw [htake, hpairs]
      rfl
    · rw [htake, herror]
      rfl

/-- **The calls made for root fields**: they are what the fields do, in the order of the fields. -/
structure CallsFor (executor : Executor) (given : Variables) (fields : List Field) (host : Host)
    (calls : List ResolverCall) : Prop where
  /-- Nothing happens but the calls. -/
  effect : (executor.fieldPairs given none 1 fields host).2 = ResolverCall.leave host calls
  /-- The calls answer the fields, from the first one on. -/
  answers : List.Forall₂ (executor.Answers given) (fields.take calls.length) calls
  /-- If the fields succeed, there is a call for each of them. -/
  complete : ∀ pairs, (executor.fieldPairs given none 1 fields host).1 = .ok pairs →
    calls.length = fields.length
  /-- If they fail at one of them, the calls are those up to it, and not its own call if the fault
  precedes that. -/
  stopped : ∀ index error, executor.FieldsFailAt given fields host index error →
    calls.length = if error.precedesCall then index else index + 1
  /-- If they fail, they fail at one of them. -/
  fails : ∀ error, (executor.fieldPairs given none 1 fields host).1 = .error error →
    ∃ index < fields.length, executor.FieldsFailAt given fields host index error

/-- No calls are made for no fields. -/
theorem callsFor_nil (executor : Executor) (given : Variables) (host : Host) :
    executor.CallsFor given [] host [] := by
  have hrun : executor.fieldPairs given none 1 [] host = (.ok [], host) := by
    rw [fieldPairs]
    rfl
  constructor
  · rw [hrun]
    rfl
  · exact .nil
  · exact fun _ _ => rfl
  · rintro index error ⟨-, herror⟩
    rw [List.take_nil, hrun] at herror
    cases herror
  · intro error herror
    rw [hrun] at herror
    cases herror

/-- Where the first field fails, the calls are what it has done: its call, or none if the fault
precedes that. -/
theorem callsFor_cons_of_error {calls : List ResolverCall}
    (h : executor.fieldValue given none 1 field host
      = (.error error, ResolverCall.leave host calls))
    (hanswers : List.Forall₂ (executor.Answers given) ((field :: rest).take calls.length) calls)
    (hlength : calls.length = if error.precedesCall then 0 else 1) :
    executor.CallsFor given (field :: rest) host calls := by
  constructor
  · rw [fieldPairs_of_error h]
  · exact hanswers
  · intro pairs hpairs
    rw [fieldPairs_of_error h] at hpairs
    cases hpairs
  · intro index other hother
    obtain ⟨rfl, rfl⟩ := (fieldsFailAt_cons_of_error h).1 hother
    exact hlength
  · intro other hother
    rw [fieldPairs_of_error h] at hother
    cases hother
    exact ⟨0, Nat.succ_pos _, (fieldsFailAt_cons_of_error h).2 ⟨rfl, rfl⟩⟩

/-- Where the first field succeeds, its call comes before those for the other fields. -/
theorem CallsFor.cons {call : ResolverCall} {calls : List ResolverCall} {value : Value}
    (hrest : executor.CallsFor given rest (call.make host).2 calls)
    (hanswers : executor.Answers given field call)
    (h : executor.fieldValue given none 1 field host = (.ok value, (call.make host).2)) :
    executor.CallsFor given (field :: rest) host (call :: calls) := by
  constructor
  · rw [fieldPairs_of_ok h, ResolverCall.leave_cons]
    exact hrest.effect
  · rw [List.length_cons, List.take_succ_cons]
    exact .cons hanswers hrest.answers
  · intro pairs hpairs
    rw [fieldPairs_of_ok h] at hpairs
    cases hmore : (executor.fieldPairs given none 1 rest (call.make host).2).1 with
    | error fault =>
      rw [hmore] at hpairs
      cases hpairs
    | ok more => rw [List.length_cons, List.length_cons, hrest.complete more hmore]
  · intro index other hother
    -- Where the others fail, all of them fail one field later.
    obtain ⟨later, rfl, hlater⟩ := (fieldsFailAt_cons_of_ok h).1 hother
    rw [List.length_cons, hrest.stopped later other hlater]
    split <;> rfl
  · intro other hother
    rw [fieldPairs_of_ok h, Outcome.map_eq_error_iff] at hother
    obtain ⟨later, hlt, hlater⟩ := hrest.fails other hother
    exact ⟨later + 1, Nat.succ_lt_succ hlt, (fieldsFailAt_cons_of_ok h).2 ⟨later, rfl, hlater⟩⟩

/-- **For root fields calls are made**, whatever the surroundings. -/
theorem exists_callsFor (executor : Executor) (given : Variables) (fields : List Field)
    (host : Host) : ∃ calls, executor.CallsFor given fields host calls := by
  induction fields generalizing host with
  | nil => exact ⟨[], callsFor_nil executor given host⟩
  | cons field rest ih =>
    -- The first field fails without a call, or it makes one, and then fails or goes on.
    rcases executor.fieldValue_root given field host with
      ⟨error, hprecedes, hfield⟩ | ⟨call, outcome, hanswers, hfield, hafter⟩
    · exact ⟨[], callsFor_cons_of_error hfield .nil (by rw [hprecedes]; rfl)⟩
    · cases outcome with
      | error error =>
        have hlength : 1 = if error.precedesCall then 0 else 1 := by rw [hafter error rfl]; rfl
        exact ⟨[call], callsFor_cons_of_error hfield (.cons hanswers .nil) hlength⟩
      | ok value =>
        obtain ⟨calls, hcalls⟩ := ih (call.make host).2
        exact ⟨call :: calls, hcalls.cons hanswers hfield⟩

end Run

end Executor

/-! ## Documents -/

namespace Document

variable {document : Document} {host : Host}

/-- The surroundings in which root fields are executed: the operation has been noted. -/
def announced (document : Document) (host : Host) : Host :=
  match document.definitions with
  | .operation operation :: _ => (Host.note (.executing operation.kind operation.name) host).2
  | _ => host

/-- The operation is noted in the same way however many root fields there are. -/
theorem announced_upTo (document : Document) (count : Nat) (host : Host) :
    (document.upTo count).announced host = document.announced host := by
  obtain ⟨definitions⟩ := document
  match definitions with
  | .operation operation :: rest => rfl
  | .typeDefinition definition :: rest => rfl
  | [] => rfl

/-- Noting the operation is no call. -/
theorem called_announced (document : Document) (host : Host) :
    (document.announced host).called = host.called := by
  unfold announced
  split
  · simp [Host.called, Host.note, Notice.calledField?]
  · rfl

/-- What is no document to execute is none up to some root field either. -/
theorem isExecutable_upTo_iff {count : Nat} :
    (document.upTo count).IsExecutable ↔ document.IsExecutable := by
  refine ⟨?_, fun h => h.upTo count⟩
  rintro ⟨operation, rest, hdefinitions⟩
  obtain ⟨definitions⟩ := document
  match definitions with
  | .operation operation :: rest => exact ⟨operation, rest, rfl⟩
  | .typeDefinition definition :: rest => cases hdefinitions
  | [] => cases hdefinitions

end Document

namespace Executor

open Execution

variable {executor : Executor} {document : Document} {given : Variables} {host : Host}

/-- **An execution is refused** before any root field: the document is none to execute, or not even
the selection set of its root is allowed. -/
def Refuses (executor : Executor) (document : Document) : Prop :=
  ¬ document.IsExecutable ∨ executor.config.maxDepth < 1

/-- An execution that is refused fails, and does nothing but note the operation. -/
theorem Refuses.executeDocument_eq (h : executor.Refuses document) (given : Variables)
    (host : Host) :
    ∃ error, executor.executeDocument document given host
      = (.error error, document.announced host) := by
  obtain ⟨definitions⟩ := document
  match definitions with
  | [] => exact ⟨_, rfl⟩
  | .typeDefinition definition :: rest => exact ⟨_, rfl⟩
  | .operation operation :: rest =>
    obtain hno | hdepth := h
    · exact absurd ⟨operation, rest, rfl⟩ hno
    · have hcheck : ∀ after, executor.checkDepth 1 after
          = (.error (.maxDepthExceeded executor.config.maxDepth), after) := by
        intro after
        rw [checkDepth, if_pos hdepth]
        rfl
      exact ⟨.maxDepthExceeded executor.config.maxDepth, bind_of_error (hcheck _) _⟩

/-- An execution that is refused is refused before its first root field. -/
theorem Refuses.not_failsAt (h : executor.Refuses document) {index : Nat} {error : ExecutionError} :
    ¬ executor.FailsAt document given host index error := by
  rintro ⟨⟨data, hdata⟩, -⟩
  have hupTo : executor.Refuses (document.upTo index) :=
    h.imp_left fun hno hyes => hno (Document.isExecutable_upTo_iff.1 hyes)
  obtain ⟨fault, hfault⟩ := hupTo.executeDocument_eq given host
  rw [hfault] at hdata
  cases hdata

/-- An execution that is not refused executes the root fields. -/
theorem executeDocument_eq_fieldPairs (h : ¬ executor.Refuses document) (given : Variables)
    (host : Host) :
    executor.executeDocument document given host
      = ((executor.fieldPairs given none 1 document.rootFields (document.announced host)).1.map
            Entries.ofPairs,
          (executor.fieldPairs given none 1 document.rootFields (document.announced host)).2) := by
  obtain ⟨hdocument, hdepth⟩ := not_or.1 h
  obtain ⟨operation, rest, hdefinitions⟩ := not_not.1 hdocument
  have hcheck : executor.checkDepth 1 = pure () := by rw [checkDepth, if_neg hdepth]
  rw [executeDocument, Document.announced, Document.rootFields, hdefinitions]
  show (executor.checkDepth 1 >>= fun _ => executor.fieldPairs given none 1 operation.selection
    >>= fun pairs => pure (Entries.ofPairs pairs)) (Host.note _ host).2 = _
  rw [hcheck]
  cases hrun : executor.fieldPairs given none 1 operation.selection
      (Host.note (.executing operation.kind operation.name) host).2 with
  | mk outcome after =>
    cases outcome with
    | error error => exact bind_of_error hrun _
    | ok pairs => exact bind_of_ok hrun _

/-- An execution that is not refused fails where its root fields fail. -/
theorem failsAt_iff (h : ¬ executor.Refuses document) {index : Nat} {error : ExecutionError} :
    executor.FailsAt document given host index error
      ↔ executor.FieldsFailAt given document.rootFields (document.announced host) index error := by
  have hupTo : ∀ count, (executor.executeDocument (document.upTo count) given host).1
      = (executor.fieldPairs given none 1 (document.rootFields.take count)
          (document.announced host)).1.map Entries.ofPairs := by
    intro count
    have hcount : ¬ executor.Refuses (document.upTo count) := fun hrefuses =>
      h (hrefuses.imp_left fun hno hyes => hno (hyes.upTo count))
    rw [executeDocument_eq_fieldPairs hcount, Document.rootFields_upTo, Document.announced_upTo]
  rw [FailsAt, FieldsFailAt, hupTo, hupTo, Outcome.map_eq_error_iff]
  refine and_congr_left fun _ => ?_
  cases (executor.fieldPairs given none 1 (document.rootFields.take index)
    (document.announced host)).1 <;> simp [Except.map]

/-- **The calls of an execution**, in the order in which they are made. -/
structure MakesCalls (executor : Executor) (document : Document) (given : Variables) (host : Host)
    (calls : List ResolverCall) : Prop where
  /-- Nothing happens to the surroundings but that the operation is noted and the calls are made. -/
  effect : (executor.executeDocument document given host).2
    = ResolverCall.leave (document.announced host) calls
  /-- The log tells of these calls and no others. -/
  logged : (executor.executeDocument document given host).2.called
    = host.called ++ calls.map ResolverCall.field
  /-- Each call answers one root field of the first definition, from the first field on. -/
  answers : List.Forall₂ (executor.Answers given) (document.rootFields.take calls.length) calls
  /-- An execution that succeeds has made a call for every root field. -/
  complete : ∀ data, (executor.executeDocument document given host).1 = .ok data →
    calls.length = document.rootFields.length
  /-- An execution that fails at a root field has made the calls for the fields before it, and the
  call for that field unless the fault precedes it. -/
  stopped : ∀ index error, executor.FailsAt document given host index error →
    calls.length = if error.precedesCall then index else index + 1
  /-- An execution that fails does so at a root field, or it is refused and makes no calls. -/
  fails : ∀ error, (executor.executeDocument document given host).1 = .error error →
    (∃ index < document.rootFields.length, executor.FailsAt document given host index error)
      ∨ executor.Refuses document ∧ calls = []

/-- What root fields do depends on their resolvers only. -/
theorem fieldPairs_withRegistry {registry : Registry} {fields : List Field}
    (h : ∀ field ∈ fields, registry.rootResolver? field.name
      = executor.registry.rootResolver? field.name) :
    (executor.withRegistry registry).fieldPairs given none 1 fields
      = executor.fieldPairs given none 1 fields := by
  induction fields with
  | nil => rw [fieldPairs, fieldPairs]
  | cons field rest ih =>
    -- A root field finds the same resolver, and a nested field looks for none.
    have hresolve : (executor.withRegistry registry).resolveField none field given
        = executor.resolveField none field given := by
      rw [resolveField, resolveField, fieldSource?_none, fieldSource?_none,
        ← h field List.mem_cons_self]
      rfl
    have hnested : ∀ value,
        (executor.withRegistry registry).nestedValue given 1 value field.selection
          = executor.nestedValue given 1 value field.selection := by
      intro value
      obtain ⟨outcome, hleft, hright, -⟩ :=
        @readAlike_nestedValue executor registry given 1 value field.selection
      rw [hleft, hright]
    rw [fieldPairs, fieldPairs, fieldValue_eq_bind, fieldValue_eq_bind, hresolve,
      ih fun other hother => h other (List.mem_cons_of_mem field hother)]
    simp only [hnested]

/-- So does executing a document. -/
theorem executeDocument_withRegistry {registry : Registry}
    (h : ∀ field ∈ document.rootFields, registry.rootResolver? field.name
      = executor.registry.rootResolver? field.name) :
    (executor.withRegistry registry).executeDocument document given
      = executor.executeDocument document given := by
  obtain ⟨definitions⟩ := document
  match definitions with
  | [] => rfl
  | .typeDefinition definition :: rest => rfl
  | .operation operation :: rest =>
    have hpairs : (executor.withRegistry registry).fieldPairs given none 1 operation.selection
        = executor.fieldPairs given none 1 operation.selection := fieldPairs_withRegistry h
    simp only [executeDocument, select, selectAt, hpairs]
    rfl

/-- An execution that is refused makes no calls. -/
theorem Refuses.makesCalls (h : executor.Refuses document) (given : Variables) (host : Host) :
    executor.MakesCalls document given host [] := by
  obtain ⟨fault, hrun⟩ := h.executeDocument_eq given host
  constructor
  · rw [hrun, ResolverCall.leave_nil]
  · rw [hrun, List.map_nil, List.append_nil]
    exact document.called_announced host
  · exact .nil
  · intro data hdata
    rw [hrun] at hdata
    cases hdata
  · exact fun index error hfails => absurd hfails h.not_failsAt
  · exact fun error _ => .inr ⟨h, rfl⟩

/-- An execution that is not refused makes the calls for its root fields. -/
theorem CallsFor.makesCalls {calls : List ResolverCall}
    (hcalls : executor.CallsFor given document.rootFields (document.announced host) calls)
    (h : ¬ executor.Refuses document) : executor.MakesCalls document given host calls := by
  have hrun := executeDocument_eq_fieldPairs h given host
  have heffect : (executor.executeDocument document given host).2
      = ResolverCall.leave (document.announced host) calls := by
    rw [hrun, hcalls.effect]
  constructor
  · exact heffect
  · rw [heffect, ResolverCall.called_leave, Document.called_announced]
  · exact hcalls.answers
  · intro data hdata
    rw [hrun] at hdata
    cases hpairs : (executor.fieldPairs given none 1 document.rootFields
        (document.announced host)).1 with
    | error fault =>
      rw [hpairs] at hdata
      cases hdata
    | ok pairs => exact hcalls.complete pairs hpairs
  · exact fun index error hfails => hcalls.stopped index error ((failsAt_iff h).1 hfails)
  · intro error herror
    rw [hrun, Outcome.map_eq_error_iff] at herror
    obtain ⟨index, hlt, hfails⟩ := hcalls.fails error herror
    exact .inl ⟨index, hlt, (failsAt_iff h).2 hfails⟩

/-- **Which resolvers are called, and in which order.** An execution makes calls for root fields
only, one for each in the order selected, up to the first field at which it fails, and that is all
it does to its surroundings. Resolvers that are registered for other fields, or for subscriptions,
make no difference to it. -/
theorem exists_makesCalls (executor : Executor) (document : Document) (given : Variables)
    (host : Host) :
    (∃ calls, executor.MakesCalls document given host calls)
      ∧ ∀ registry : Registry,
        (∀ field ∈ document.rootFields,
          registry.rootResolver? field.name = executor.registry.rootResolver? field.name) →
        (executor.withRegistry registry).executeDocument document given host
          = executor.executeDocument document given host := by
  refine ⟨?_, fun registry hsame => by rw [executeDocument_withRegistry hsame]⟩
  by_cases hrefuses : executor.Refuses document
  · exact ⟨[], hrefuses.makesCalls given host⟩
  · obtain ⟨calls, hcalls⟩ :=
      executor.exists_callsFor given document.rootFields (document.announced host)
    exact ⟨calls, hcalls.makesCalls hrefuses⟩

/-- The resolver for `b` is not called for the nested field `b`, and that for `c` is not called
because its argument is missing. -/
example :
    let answer (value : Value) : Resolver := fun _ _ hub => (.ok value, hub)
    let registry := ((Registry.empty.register .mutation "a" (answer (.object [("b", .null)])))
      |>.register .query "b" (answer .null) |>.register .query "c" (answer .null)
      |>.register .subscription "a" (answer .null))
    let document : Document := ⟨[.operation ⟨.query, none, [],
      [⟨"a", [], some [⟨"b", [], none⟩]⟩, ⟨"c", [⟨"x", .variableRef "x"⟩], none⟩]⟩]⟩
    ((⟨registry, ⟨64, true⟩⟩ : Executor).executeDocument document ⟨[]⟩ .empty).2.called = ["a"] :=
  rfl

end Executor

end GraphQuery
