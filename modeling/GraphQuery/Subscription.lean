import GraphQuery.Execution

/-! # Subscriptions

A subscription starts by calling the resolver registered for its field, which must answer a
stream that nobody has taken yet. Only a start that succeeds takes the stream. -/

namespace GraphQuery.Executor

/-- Calls the resolver of a subscription, and gives the channel of the stream it answers. -/
def subscriptionChannel (executor : Executor) (source : Option Value) (field : Field)
    (given : Variables) : Execution Nat :=
  match executor.registry.lookup? .subscription field.name with
  | none => throw (.subscriptionResolverNotFound field.name)
  | some resolver => do
    let arguments ← Execution.ofExcept (executor.buildArguments field given)
    match ← Execution.call field.name resolver source arguments with
    | .stream channel => return channel
    | other => throw (.notStreamShaped field.name other.typeName)

/-- **Subscribes to a field**, and answers the channel whose stream was taken. -/
def subscribe (executor : Executor) (source : Option Value) (field : Field)
    (given : Variables) : Execution Nat := do
  let channel ← executor.subscriptionChannel source field given
  if ← (Host.onHub (Hub.takeStream channel) : StateM Host Bool) then
    Execution.note (.subscriptionStarted field.name)
    return channel
  else throw (.streamAlreadyTaken field.name)

/-- The field that a document subscribes to: the first one of its first definition, which must
be a subscription. -/
def subscriptionField (document : Document) : Except ExecutionError Field :=
  match document.definitions with
  | [] => .error .noDefinitions
  | .typeDefinition _ :: _ => .error .notASubscription
  | .operation operation :: _ =>
    if operation.kind ≠ .subscription then .error .notASubscription
    else
      match operation.selection with
      | [] => .error .emptySubscription
      | field :: _ => .ok field

/-- **Subscribes to a source text.** -/
def subscribeText (executor : Executor) (source : String) (given : Variables) :
    Execution Nat := do
  let parsed := Parsed.ofText source
  noteErrors parsed source
  let field ← Execution.ofExcept (subscriptionField parsed.document)
  executor.subscribe none field given

end GraphQuery.Executor
