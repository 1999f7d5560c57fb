import GraphQuery.Registry
import GraphQuery.Parse
import GraphQuery.Execution.Error
import GraphQuery.Log

/-! # Execution

The executor runs the first definition of a document, which must be an operation. **Root fields**
are given their values by resolvers, those registered for queries before those for mutations,
whatever the operation's keyword. **Nested fields** are read from the value of their parent: a
record's by identifier or tag, an object's by key, exactly or else in any case. A nested selection
goes through lists item by item, narrows what is record-shaped to the selected fields, and leaves
everything else as it is.

Fields are taken in the order written. The value of a field that is selected twice is the last
one, in the first one's place. The first fault ends the execution. -/

namespace GraphQuery

/-- **What happens while a request is served**, as a log tells it. -/
inductive Notice where
  /-- A resolver was registered under a new name. -/
  | registered (kind : OperationKind) (name : String)
  /-- A resolver was registered in place of another one. -/
  | replaced (kind : OperationKind) (name : String)
  /-- A document with errors is executed as far as it could be made out. -/
  | bestEffort (errors : Nat) (rendered : String)
  /-- An operation is executed. -/
  | executing (kind : OperationKind) (name : Option String)
  /-- The resolver of a root field is called. -/
  | callingResolver (field : String)
  /-- A subscription was started. -/
  | subscriptionStarted (field : String)
  /-- A channel reports. -/
  | channel (notice : ChannelNotice)
deriving DecidableEq

namespace Notice

/-- The level of a notice: single calls and channels are for tracing every step. -/
def level : Notice → LogLevel
  | callingResolver _ | channel (.opened _) => .trace
  | _ => .debug

/-- A notice in words. -/
def message : Notice → String
  | registered kind name => "registered " ++ kind.keyword ++ " resolver `" ++ name ++ "`"
  | replaced kind name => "replaced " ++ kind.keyword ++ " resolver `" ++ name ++ "`"
  | bestEffort errors rendered =>
    "executing best-effort document; " ++ toString errors ++ " parse error(s):\n" ++ rendered
  | executing kind name =>
    "executing " ++ kind.keyword ++ " operation " ++ name.getD "<anonymous>"
  | callingResolver field => "calling resolver for field `" ++ field ++ "`"
  | subscriptionStarted field => "subscription `" ++ field ++ "` started"
  | channel (.opened capacity) =>
    "opened subscription channel with capacity " ++ toString capacity
  | channel .cancelled => "subscription stream cancelled by consumer"

/-- The log line of a notice. -/
def line (notice : Notice) : LogLine := ⟨notice.level, notice.message⟩

end Notice

/-- **The surroundings of an execution**: the hub that resolvers act on, and the log. -/
structure Host where
  /-- What resolvers act on. -/
  hub : Hub
  /-- What happened so far. -/
  log : Array Notice

namespace Host

/-- Surroundings in which nothing has happened. -/
def empty : Host := ⟨.empty, #[]⟩

/-- Writes a notice to the log. -/
def note (notice : Notice) : StateM Host Unit := fun host =>
  ((), { host with log := host.log.push notice })

/-- Acts on the hub, and writes what channels report to the log. -/
def onHub {α : Type} (act : StateM Hub α) : StateM Host α := fun host =>
  let (answer, hub) := act host.hub
  let (notices, hub) := Hub.collect hub
  (answer, ⟨hub, host.log ++ (notices.map Notice.channel).toArray⟩)

/-- Registers a resolver, and notes whether another one gave way to it. -/
def register (registry : Registry) (kind : OperationKind) (name : String) (resolver : Resolver) :
    StateM Host Registry := do
  note (if registry.contains kind name then .replaced kind name else .registered kind name)
  return registry.register kind name resolver

end Host

/-- **An execution**: it acts on its surroundings and ends in a value or an error. -/
abbrev Execution := ExceptT ExecutionError (StateM Host)

namespace Execution

/-- Writes a notice to the log. -/
def note (notice : Notice) : Execution Unit := fun host =>
  let (_, host) := Host.note notice host
  (.ok (), host)

/-- Goes on with what may have failed. -/
def ofExcept {α : Type} : Except ExecutionError α → Execution α
  | .ok value => pure value
  | .error error => throw error

/-- Calls the resolver of a field. -/
def call (field : String) (resolver : Resolver) (source : Option Value) (arguments : Arguments) :
    Execution Value := fun host =>
  match Host.onHub (resolver source arguments) host with
  | (.ok value, host) => (.ok value, host)
  | (.error failure, host) => (.error (.resolver field failure.message), host)

end Execution

/-- **The settings of an executor.** -/
structure Config where
  /-- How deep selection sets may nest; the root's is the first level. -/
  maxDepth : Nat := maxNesting
  /-- Whether arguments are built strictly. -/
  strict : Bool := false
deriving DecidableEq

/-- **An executor**: resolvers and settings. -/
structure Executor where
  /-- The resolvers of root fields. -/
  registry : Registry
  /-- The settings. -/
  config : Config

/-- **Where the value of a field comes from.** -/
inductive FieldSource where
  /-- A resolver, for a root field. -/
  | resolver (resolver : Resolver)
  /-- The value of the parent, for a nested field. -/
  | reflected (parent : Value)

namespace Value

/-- The entry of an object that a name means: the exact key, or else the first in any case. -/
def lookupEntry? (entries : Entries Value) (name : String) : Option Value :=
  match Entries.get? entries name with
  | some value => some value
  | none =>
    (entries.find? fun entry => FieldDescriptor.sameIgnoringCase entry.1 name).map Prod.snd

/-- **Reads a field** from a record-shaped value. -/
def reflect (source : Value) (name : String) : Except ExecutionError Value :=
  match source with
  | record _ fields =>
    match lookupField? fields name with
    | some value => .ok value
    | none => .error (.fieldNotFound name source.typeName)
  | object entries =>
    match lookupEntry? entries name with
    | some value => .ok value
    | none => .error (.fieldNotFound name source.typeName)
  | other => .error (.notARecord name other.typeName)

mutual

/-- **Changes what is record-shaped in a value**, going through lists item by item, and leaves
everything else as it is. -/
def mapRecords {m : Type → Type} [Monad m] (change : Value → m Value) : Value → m Value
  | list items => do return list (← mapRecordItems change items)
  | object entries => change (object entries)
  | record identity fields => change (record identity fields)
  | null => pure null
  | boolean value => pure (boolean value)
  | int value => pure (int value)
  | float value => pure (float value)
  | string text => pure (string text)
  | bytes data => pure (bytes data)
  | stream channel => pure (stream channel)

/-- Changes what is record-shaped in the items of a list. -/
def mapRecordItems {m : Type → Type} [Monad m] (change : Value → m Value) :
    List Value → m (List Value)
  | [] => pure []
  | item :: rest => do
    let item ← mapRecords change item
    let rest ← mapRecordItems change rest
    return item :: rest

end

end Value

namespace Executor

/-- **Where the value of a field comes from**: the parent if there is one, else a resolver. -/
def fieldSource? (executor : Executor) (source : Option Value) (name : String) :
    Option FieldSource :=
  match source with
  | some parent => some (.reflected parent)
  | none =>
    match executor.registry.lookup? .query name with
    | some resolver => some (.resolver resolver)
    | none => (executor.registry.lookup? .mutation name).map .resolver

/-- The arguments of a field, built as the settings say. -/
def buildArguments (executor : Executor) (field : Field) (given : Variables) :
    Except ExecutionError Arguments :=
  if executor.config.strict then
    match Arguments.strict field given with
    | .ok arguments => .ok arguments
    | .error fault => .error (.argument fault)
  else .ok (Arguments.lenient field given)

/-- **The value of one field**, before any nested selection. -/
def resolveField (executor : Executor) (source : Option Value) (field : Field)
    (given : Variables) : Execution Value :=
  match executor.fieldSource? source field.name with
  | some (.resolver resolver) => do
    let arguments ← Execution.ofExcept (executor.buildArguments field given)
    Execution.note (.callingResolver field.name)
    Execution.call field.name resolver source arguments
  | some (.reflected parent) => Execution.ofExcept (parent.reflect field.name)
  | none => throw (.resolverNotFound field.name)

/-- Refuses selection sets that nest too deep. -/
def checkDepth (executor : Executor) (depth : Nat) : Execution Unit :=
  if executor.config.maxDepth < depth then throw (.maxDepthExceeded executor.config.maxDepth)
  else pure ()

mutual

/-- The value of one field with its nested selection, as part of a set at level `depth`. -/
def fieldValue (executor : Executor) (given : Variables) (source : Option Value)
    (depth : Nat) : Field → Execution Value
  | ⟨name, arguments, selection⟩ => do
    let value ← executor.resolveField source ⟨name, arguments, selection⟩ given
    nestedValue executor given depth value selection

/-- A value with the selection nested in a set at level `depth` applied to it. -/
def nestedValue (executor : Executor) (given : Variables) (depth : Nat) (value : Value) :
    Option (List Field) → Execution Value
  | none => pure value
  | some fields =>
    value.mapRecords fun record => do
      executor.checkDepth (depth + 1)
      let pairs ← fieldPairs executor given (some record) (depth + 1) fields
      return .object (Entries.ofPairs pairs)

/-- The names and values of the fields of a set at level `depth`. -/
def fieldPairs (executor : Executor) (given : Variables) (source : Option Value)
    (depth : Nat) : List Field → Execution (List (String × Value))
  | [] => pure []
  | field :: rest => do
    let value ← fieldValue executor given source depth field
    let pairs ← fieldPairs executor given source depth rest
    return (field.name, value) :: pairs

end

/-- **Executes a selection set** at level `depth`. -/
def selectAt (executor : Executor) (given : Variables) (source : Option Value) (depth : Nat)
    (selection : SelectionSet) : Execution (Entries Value) := do
  executor.checkDepth depth
  let pairs ← executor.fieldPairs given source depth selection
  return Entries.ofPairs pairs

/-- Executes a selection set on its own. -/
def select (executor : Executor) (given : Variables) (source : Option Value)
    (selection : SelectionSet) : Execution (Entries Value) :=
  executor.selectAt given source 1 selection

/-- **Applies a selection set to a value**: narrows what is record-shaped to the selected
fields. -/
def narrow (executor : Executor) (given : Variables) (value : Value)
    (selection : SelectionSet) : Execution Value :=
  value.mapRecords fun record => do
    return .object (← executor.selectAt given (some record) 1 selection)

/-- **Executes a document**: its first definition, which must be an operation. -/
def executeDocument (executor : Executor) (document : Document) (given : Variables) :
    Execution (Entries Value) :=
  match document.definitions with
  | [] => throw .noDefinitions
  | .typeDefinition _ :: _ => throw .unsupportedDefinition
  | .operation operation :: _ => do
    Execution.note (.executing operation.kind operation.name)
    executor.select given none operation.selection

/-- Notes that a document is executed although it has errors. -/
def noteErrors (parsed : Parsed) (source : String) : Execution Unit :=
  if parsed.hasErrors then
    Execution.note (.bestEffort parsed.diagnostics.length
      (Diagnostic.renderAll source.toList parsed.diagnostics))
  else pure ()

/-- **Executes a source text**, as far as a document can be made out. -/
def execute (executor : Executor) (source : String) (given : Variables) :
    Execution (Entries Value) := do
  let parsed := Parsed.ofText source
  noteErrors parsed source
  executor.executeDocument parsed.document given

end Executor

/-- The answer to a request: the data of the root fields, as one value. -/
def responseValue (data : Entries Value) : Value := .object [("data", .object data)]

end GraphQuery
