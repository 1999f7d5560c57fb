import GraphQuery.Proofs.Arguments
import GraphQuery.Proofs.Failures
import GraphQuery.Proofs.FieldByField

/-! # Strict and lenient execution

Only root fields have their arguments built, so that a strict execution goes field by field as the
lenient one does, until it comes to a field whose arguments cannot be built
(`Executor.rootField_withStrict`). All that can make a difference between the two is that field
(`Executor.executeDocument_withStrict`). -/

namespace GraphQuery

/-! ## The reference semantics -/

namespace Reference

variable {resolve resolve' : Option Value → Field → Outcome Value} {maxDepth : Nat}

mutual

/-- What a nested field yields depends on how nested fields are resolved, and not on root fields. -/
theorem field_congr (h : ∀ parent f, resolve (some parent) f = resolve' (some parent) f)
    (parent : Value) (depth : Nat) : (f : Field) →
      field resolve maxDepth (some parent) depth f = field resolve' maxDepth (some parent) depth f
  | ⟨name, arguments, selection⟩ => by
    rw [field, field, h]
    cases resolve' (some parent) ⟨name, arguments, selection⟩ with
    | error error => rfl
    | ok value => exact nested_congr h depth value selection

/-- So does a value with a nested selection applied to it. -/
theorem nested_congr (h : ∀ parent f, resolve (some parent) f = resolve' (some parent) f)
    (depth : Nat) (value : Value) : (selection : Option (List Field)) →
      nested resolve maxDepth depth value selection = nested resolve' maxDepth depth value selection
  | none => by rw [nested, nested]
  | some selected => by
    rw [nested, nested]
    congr 1
    funext record
    rw [fields_congr h record (depth + 1) selected]

/-- And so do the fields of a nested set. -/
theorem fields_congr (h : ∀ parent f, resolve (some parent) f = resolve' (some parent) f)
    (parent : Value) (depth : Nat) : (selected : List Field) →
      fields resolve maxDepth (some parent) depth selected
        = fields resolve' maxDepth (some parent) depth selected
  | [] => by rw [fields, fields]
  | first :: rest => by
    rw [fields, fields, field_congr h parent depth first, fields_congr h parent depth rest]

end

end Reference

/-! ## Outcomes in a row -/

namespace Outcome

variable {α β : Type}

/-- Outcomes in a row, taken in two parts. -/
theorem all_append (first second : List (Outcome α)) :
    all (first ++ second)
      = (all first).bind fun values => (all second).map fun more => values ++ more := by
  induction first with
  | nil => exact (congrFun Except.map_id (all second)).symm
  | cons outcome first ih =>
    cases outcome with
    | error error => rfl
    | ok value =>
      rw [List.cons_append, all_ok, all_ok, ih]
      cases all first with
      | error error => rfl
      | ok values => exact map_map (all second) _ _

/-- Outcomes that fail do so at one of them, when those before it have not failed. -/
theorem exists_take_of_all_error {outcomes : List (Outcome α)} {error : ExecutionError}
    (h : all outcomes = .error error) :
    ∃ index values, all (outcomes.take index) = .ok values
      ∧ all (outcomes.take (index + 1)) = .error error := by
  induction outcomes with
  | nil => cases h
  | cons outcome rest ih =>
    -- The failure is that of the first outcome, or it is found among the others.
    cases outcome with
    | error fault =>
      cases h
      exact ⟨0, [], rfl, rfl⟩
    | ok value =>
      rw [all_ok] at h
      cases hrest : all rest with
      | ok values =>
        rw [hrest] at h
        cases h
      | error fault =>
        rw [hrest] at h
        cases h
        obtain ⟨index, values, hbefore, hat⟩ := ih hrest
        refine ⟨index + 1, value :: values, ?_, ?_⟩
        · rw [List.take_succ_cons, all_ok, hbefore]
          rfl
        · rw [List.take_succ_cons, all_ok, hat]
          rfl

/-- What comes after a failure does not count. -/
theorem all_eq_error_of_take {outcomes : List (Outcome α)} {error : ExecutionError} {count : Nat}
    (h : all (outcomes.take count) = .error error) : all outcomes = .error error := by
  rw [← List.take_append_drop count outcomes, all_append, h]
  rfl

/-- Outcomes that have not failed so far fail later, if at all. -/
theorem le_of_all_take {outcomes : List (Outcome α)} {values : List α} {error : ExecutionError}
    {index later : Nat} (hbefore : all (outcomes.take index) = .ok values)
    (hat : all (outcomes.take (later + 1)) = .error error) : index ≤ later := by
  by_contra hlt
  -- Otherwise what fails is among the outcomes that have not failed.
  have hamong : all ((outcomes.take index).take (later + 1)) = .error error := by
    rw [List.take_take, Nat.min_eq_left (by omega)]
    exact hat
  rw [all_eq_error_of_take hamong] at hbefore
  cases hbefore

/-- What is made of the values does not fail. -/
theorem map_eq_error_iff {outcome : Outcome α} {f : α → β} {error : ExecutionError} :
    outcome.map f = .error error ↔ outcome = .error error := by
  cases outcome <;> simp [Except.map]

/-- **Two rows of outcomes** are equal in all, or the first row fails where the rows come apart. -/
theorem all_eq_or_exists_take {inputs : List β} {f g : β → Outcome α}
    {fails : β → ExecutionError → Prop}
    (h : ∀ input, f input = g input ∨ ∃ error, fails input error ∧ f input = .error error) :
    all (inputs.map f) = all (inputs.map g)
      ∨ ∃ index input error values, inputs[index]? = some input ∧ fails input error
        ∧ all ((inputs.take index).map f) = .ok values
        ∧ all ((inputs.take (index + 1)).map f) = .error error
        ∧ all ((inputs.take index).map g) = .ok values := by
  induction inputs with
  | nil => exact .inl rfl
  | cons input rest ih =>
    rcases h input with heq | ⟨error, hfails, herror⟩
    · cases hvalue : g input with
      | error error =>
        refine .inl ?_
        rw [List.map_cons, List.map_cons, heq, hvalue, all_error, all_error]
      | ok value =>
        rcases ih with hrest | ⟨index, other, error, values, hget, hfails, hf, hat, hg⟩
        · refine .inl ?_
          rw [List.map_cons, List.map_cons, heq, hvalue, all_ok, all_ok, hrest]
        · -- The rows come apart one place later.
          refine .inr ⟨index + 1, other, error, value :: values, hget, hfails, ?_, ?_, ?_⟩
          · rw [List.take_succ_cons, List.map_cons, heq, hvalue, all_ok, hf]
            rfl
          · rw [List.take_succ_cons, List.map_cons, heq, hvalue, all_ok, hat]
            rfl
          · rw [List.take_succ_cons, List.map_cons, hvalue, all_ok, hg]
            rfl
    · refine .inr ⟨0, input, error, [], rfl, hfails, rfl, ?_, rfl⟩
      rw [List.take_succ_cons, List.map_cons, herror, all_error]

end Outcome

/-! ## Runs over root fields -/

namespace Document

/-- The root fields that are executed: those of the first definition, if it is an operation. -/
def rootFields (document : Document) : SelectionSet :=
  match document.definitions with
  | .operation operation :: _ => operation.selection
  | _ => []

/-- A document up to some number of the root fields that are executed. -/
def upTo (document : Document) (count : Nat) : Document :=
  match document.definitions with
  | .operation operation :: rest =>
    ⟨.operation { operation with selection := operation.selection.take count } :: rest⟩
  | _ => document

/-- The root fields of a document up to some number. -/
theorem rootFields_upTo (document : Document) (count : Nat) :
    (document.upTo count).rootFields = document.rootFields.take count := by
  obtain ⟨definitions⟩ := document
  match definitions with
  | .operation operation :: rest => rfl
  | .typeDefinition definition :: rest => exact List.take_nil.symm
  | [] => exact List.take_nil.symm

/-- Whether the first definition of a document is an operation. -/
def IsExecutable (document : Document) : Prop :=
  ∃ operation rest, document.definitions = .operation operation :: rest

/-- A document can be executed up to any number of its root fields. -/
theorem IsExecutable.upTo {document : Document} (h : document.IsExecutable) (count : Nat) :
    (document.upTo count).IsExecutable := by
  obtain ⟨operation, rest, hdefinitions⟩ := h
  rw [Document.upTo, hdefinitions]
  exact ⟨_, rest, rfl⟩

end Document

namespace Executor

open Execution

variable {executor : Executor} {given : Variables} {document : Document} {host : Host}

/-- **A run fails at a root field**: without it and what follows, it succeeds, and with it, it
fails. -/
def FailsAt (executor : Executor) (document : Document) (given : Variables) (host : Host)
    (index : Nat) (error : ExecutionError) : Prop :=
  (∃ data, (executor.executeDocument (document.upTo index) given host).1 = .ok data)
    ∧ (executor.executeDocument (document.upTo (index + 1)) given host).1 = .error error

/-- What a root field yields. -/
def rootField (executor : Executor) (given : Variables) : Field → Outcome Value :=
  Reference.field (executor.resolved given) executor.config.maxDepth none 1

/-- Executing a document yields what its root fields yield. -/
theorem executeDocument_eq_selection (hpure : executor.registry.IsPure)
    (hdocument : document.IsExecutable) (given : Variables) (host : Host) :
    (executor.executeDocument document given host).1
      = Reference.selection (executor.resolved given) executor.config.maxDepth none 1
          document.rootFields := by
  obtain ⟨operation, rest, hdefinitions⟩ := hdocument
  rw [executeDocument, Document.rootFields, hdefinitions]
  exact yields_selectAt hpure given none 1 operation.selection _

/-- Where any root fields are allowed, they yield one outcome after the other. -/
theorem executeDocument_eq_all (hpure : executor.registry.IsPure)
    (hdocument : document.IsExecutable) (hdepth : ¬ executor.config.maxDepth < 1)
    (given : Variables) (host : Host) :
    (executor.executeDocument document given host).1
      = (Outcome.all (document.rootFields.map (executor.rootField given))).map fun values =>
          Entries.lastWrites ((document.rootFields.map Field.name).zip values) := by
  rw [executeDocument_eq_selection hpure hdocument, Reference.selection, if_neg hdepth]
  rfl

/-- A run fails where the outcomes of the root fields do. -/
theorem failsAt_of_all_take (hpure : executor.registry.IsPure) (hdocument : document.IsExecutable)
    (hdepth : ¬ executor.config.maxDepth < 1) {index : Nat} {values : List Value}
    {error : ExecutionError}
    (hbefore : Outcome.all ((document.rootFields.take index).map (executor.rootField given))
      = .ok values)
    (hat : Outcome.all ((document.rootFields.take (index + 1)).map (executor.rootField given))
      = .error error) (host : Host) :
    executor.FailsAt document given host index error := by
  constructor
  · rw [executeDocument_eq_all hpure (hdocument.upTo index) hdepth, Document.rootFields_upTo,
      hbefore]
    exact ⟨_, rfl⟩
  · rw [executeDocument_eq_all hpure (hdocument.upTo (index + 1)) hdepth,
      Document.rootFields_upTo, hat]
    rfl

/-! ## Two runs -/

/-- An executor that builds arguments strictly, or else leniently. -/
def withStrict (executor : Executor) (strict : Bool) : Executor :=
  { executor with config := { executor.config with strict } }

/-- **Resolving a root field** strictly does as leniently, unless its arguments cannot be built. -/
theorem resolved_withStrict (executor : Executor) (given : Variables) (field : Field) :
    (executor.withStrict true).resolved given none field
        = (executor.withStrict false).resolved given none field
      ∨ ∃ fault, Arguments.strict field given = .error fault
        ∧ (executor.withStrict true).resolved given none field = .error (.argument fault) := by
  have hsource : ∀ strict, (executor.withStrict strict).fieldSource? none field.name
      = executor.fieldSource? none field.name := fun _ => rfl
  unfold resolved resolveField
  rw [hsource, hsource]
  -- Only resolvers are given arguments.
  cases executor.fieldSource? none field.name with
  | none => exact .inl rfl
  | some found =>
    cases found with
    | reflected parent => exact .inl rfl
    | resolver resolver =>
      rcases Arguments.strict_error_or_ok field given with ⟨fault, hfault⟩ | harguments
      · refine .inr ⟨fault, hfault, ?_⟩
        simp only [buildArguments, withStrict, if_true, hfault]
        rfl
      · refine .inl ?_
        simp [buildArguments, withStrict, harguments]

/-- **A root field** does so with its nested selection, for nested fields have no arguments
built. -/
theorem rootField_withStrict (executor : Executor) (given : Variables) (field : Field) :
    (executor.withStrict true).rootField given field
        = (executor.withStrict false).rootField given field
      ∨ ∃ error, (∃ fault, Arguments.strict field given = .error fault
          ∧ error = .argument fault)
        ∧ (executor.withStrict true).rootField given field = .error error := by
  obtain ⟨name, arguments, selection⟩ := field
  rw [rootField, rootField, Reference.field, Reference.field]
  rcases executor.resolved_withStrict given ⟨name, arguments, selection⟩ with
    heq | ⟨fault, hfault, herror⟩
  · refine .inl ?_
    rw [heq]
    cases (executor.withStrict false).resolved given none ⟨name, arguments, selection⟩ with
    | error error => rfl
    | ok value =>
      have hnested : ∀ parent inner, (executor.withStrict true).resolved given (some parent) inner
          = (executor.withStrict false).resolved given (some parent) inner := fun _ _ => rfl
      exact Reference.nested_congr hnested 1 value selection
  · refine .inr ⟨.argument fault, ⟨fault, hfault, rfl⟩, ?_⟩
    rw [herror]

/-- **A strict run gives way** at a root field. -/
structure GivesWay (executor : Executor) (document : Document) (given : Variables) (host : Host)
    (index : Nat) (fault : ArgumentFault) : Prop where
  /-- The arguments of the field cannot be built. -/
  unbuilt : ∃ field, document.rootFields[index]? = some field
    ∧ Arguments.strict field given = .error fault
  /-- That is where and why the strict run fails. -/
  fails : (executor.withStrict true).FailsAt document given host index (.argument fault)
  /-- The lenient run fails there or at a later field, if it fails. -/
  first : ∀ failure,
    ((executor.withStrict false).executeDocument document given host).1 = .error failure →
    ∃ later, index ≤ later
      ∧ (executor.withStrict false).FailsAt document given host later failure

/-- Two runs over the same root fields. -/
theorem executeDocument_withStrict_of_isExecutable (hpure : executor.registry.IsPure)
    (hdocument : document.IsExecutable) (hdepth : ¬ executor.config.maxDepth < 1)
    (given : Variables) (host : Host) :
    ((executor.withStrict true).executeDocument document given host).1
        = ((executor.withStrict false).executeDocument document given host).1
      ∨ ∃ index fault,
          ((executor.withStrict true).executeDocument document given host).1
            = .error (.argument fault)
          ∧ executor.GivesWay document given host index fault := by
  have hstrict : (executor.withStrict true).registry.IsPure := hpure
  have hlenient : (executor.withStrict false).registry.IsPure := hpure
  rw [executeDocument_eq_all hstrict hdocument hdepth]
  -- Either no field differs, or the first one that does has arguments that cannot be built.
  rcases Outcome.all_eq_or_exists_take (executor.rootField_withStrict given) with
    hall | ⟨index, field, error, values, hget, ⟨fault, hfault, rfl⟩, hbefore, hat, hlater⟩
  · refine .inl ?_
    rw [executeDocument_eq_all hlenient hdocument hdepth, hall]
  · have hstops := failsAt_of_all_take hstrict hdocument hdepth hbefore hat host
    rw [List.map_take] at hat hlater
    refine .inr ⟨index, fault, ?_, ⟨field, hget, hfault⟩, hstops, ?_⟩
    · rw [Outcome.all_eq_error_of_take hat]
      rfl
    · intro failure hfailure
      rw [executeDocument_eq_all hlenient hdocument hdepth, Outcome.map_eq_error_iff] at hfailure
      obtain ⟨later, others, hothers, hfail⟩ := Outcome.exists_take_of_all_error hfailure
      refine ⟨later, Outcome.le_of_all_take hlater hfail, ?_⟩
      rw [← List.map_take] at hothers hfail
      exact failsAt_of_all_take hlenient hdocument hdepth hothers hfail host

/-- **Two runs** yield the same, or the strict one gives way. -/
theorem executeDocument_eq_or_givesWay (hpure : executor.registry.IsPure) (document : Document)
    (given : Variables) (host : Host) :
    ((executor.withStrict true).executeDocument document given host).1
        = ((executor.withStrict false).executeDocument document given host).1
      ∨ ∃ index fault,
          ((executor.withStrict true).executeDocument document given host).1
            = .error (.argument fault)
          ∧ executor.GivesWay document given host index fault := by
  by_cases hdocument : document.IsExecutable
  · by_cases hdepth : executor.config.maxDepth < 1
    · -- Not even root fields are allowed, in either run.
      have hrefused : ∀ strict,
          ((executor.withStrict strict).executeDocument document given host).1
            = .error (.maxDepthExceeded executor.config.maxDepth) := by
        intro strict
        have hregistry : (executor.withStrict strict).registry.IsPure := hpure
        rw [executeDocument_eq_selection hregistry hdocument]
        exact if_pos hdepth
      exact .inl ((hrefused true).trans (hrefused false).symm)
    · exact executeDocument_withStrict_of_isExecutable hpure hdocument hdepth given host
  · -- Neither run has an operation to execute.
    refine .inl ?_
    obtain ⟨definitions⟩ := document
    match definitions with
    | [] => rfl
    | .typeDefinition definition :: rest => rfl
    | .operation operation :: rest => exact absurd ⟨operation, rest, rfl⟩ hdocument

/-- **A lenient run** does not fail for its arguments. -/
theorem failsOnly_executeDocument_lenient (executor : Executor) (document : Document)
    (given : Variables) :
    FailsOnly (fun error => error.kind ≠ .argument)
      ((executor.withStrict false).executeDocument document given) := by
  -- Lenient arguments can always be built.
  have hresolve : ∀ source field, FailsOnly (fun error => error.kind ≠ .argument)
      ((executor.withStrict false).resolveField source field given) := by
    intro source field
    apply failsOnly_resolveField
    · intro error harguments
      cases harguments
    · intro error hkind
      rw [hkind]
      simp
  unfold executeDocument
  split
  · exact failsOnly_throw (by simp [ExecutionError.kind])
  · exact failsOnly_throw (by simp [ExecutionError.kind])
  · refine (failsOnly_note _).bind fun _ => failsOnly_selectAt ?_ ?_
    · exact failsOnly_checkDepth fun _ => by simp [ExecutionError.kind]
    · exact failsOnly_fieldPairs_of_resolve hresolve (by simp [ExecutionError.kind]) none 1 _

/-- **Strict execution refines lenient execution**, as long as the resolvers are pure: what a
strict run answers, the lenient run answers too, and where a strict run fails for anything but its
arguments, the lenient run fails likewise. A strict run that fails for its arguments does so at a
root field, and the lenient run has not failed before it. -/
theorem executeDocument_withStrict (hpure : executor.registry.IsPure) (document : Document)
    (given : Variables) (host : Host) :
    (∀ data, ((executor.withStrict true).executeDocument document given host).1 = .ok data →
        ((executor.withStrict false).executeDocument document given host).1 = .ok data)
      ∧ (∀ error, ((executor.withStrict true).executeDocument document given host).1
          = .error error → error.kind ≠ .argument →
        ((executor.withStrict false).executeDocument document given host).1 = .error error)
      ∧ ∀ error, ((executor.withStrict true).executeDocument document given host).1
          = .error error → error.kind = .argument →
        ∃ index fault, error = .argument fault
          ∧ executor.GivesWay document given host index fault := by
  have hkind := executor.failsOnly_executeDocument_lenient document given host
  rcases executeDocument_eq_or_givesWay hpure document given host with
    heq | ⟨index, fault, hrun, hgives⟩
  · rw [heq]
    refine ⟨fun _ h => h, fun _ h _ => h, fun error h hargument => ?_⟩
    exact absurd hargument (hkind error h)
  · rw [hrun]
    refine ⟨fun _ h => (nomatch h), fun error h hother => ?_, fun error h _ => ?_⟩
    · cases h
      exact absurd rfl hother
    · cases h
      exact ⟨index, fault, rfl, hgives⟩

/-- An executor with one resolver, which answers its arguments. -/
def ofEcho : Executor where
  registry := Registry.empty.register .query "echo" fun _ arguments hub =>
    (.ok (.object arguments), hub)
  config := {}

/-- Two fields, each with a list that has a variable in it. -/
def echoes : Document where
  definitions := [.operation ⟨.query, none, [],
    [⟨"echo", [⟨"items", .array [.variableRef "first", .int "7"]⟩], none⟩,
      ⟨"echo", [⟨"items", .array [.int "7", .variableRef "second"]⟩], none⟩]⟩]

/-- The variable of the second field is not provided. -/
theorem givesWay_ofEcho :
    ∃ index, ofEcho.GivesWay echoes ⟨[("first", .int 1)]⟩ .empty index
      (.variableNotProvided "second") := by
  have hpure : ofEcho.registry.IsPure :=
    Registry.isPure_empty.register .query "echo"
      ⟨fun _ arguments => .ok (.object arguments), fun _ _ _ => rfl⟩
  obtain ⟨-, -, hargument⟩ :=
    executeDocument_withStrict hpure echoes ⟨[("first", .int 1)]⟩ .empty
  obtain ⟨index, fault, hfault, hgives⟩ := hargument (.argument (.variableNotProvided "second"))
    rfl rfl
  cases hfault
  exact ⟨index, hgives⟩

end Executor

end GraphQuery
