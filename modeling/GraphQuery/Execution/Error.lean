import GraphQuery.Arguments

/-! # Execution errors

Execution stops at the first fault, and nothing of the data is answered then. -/

namespace GraphQuery

/-- **The broad kinds of execution errors.** -/
inductive ExecutionErrorKind where
  /-- The arguments of a field could not be built. -/
  | argument
  /-- The document has nothing that can be executed. -/
  | document
  /-- A field has no value. -/
  | resolution
  /-- A subscription could not be started. -/
  | subscription
deriving DecidableEq

/-- **An execution error.** -/
inductive ExecutionError where
  /-- The document has no definitions. -/
  | noDefinitions
  /-- The first definition is not an operation. -/
  | unsupportedDefinition
  /-- No resolver is registered for a root field. -/
  | resolverNotFound (field : String)
  /-- A record-shaped value has no field of this name. -/
  | fieldNotFound (field : String) (typeName : String)
  /-- A field was selected from a value that is not record-shaped. -/
  | notARecord (field : String) (typeName : String)
  /-- A resolver failed. -/
  | resolver (field : String) (message : String)
  /-- The arguments of a field could not be built. -/
  | argument (fault : ArgumentFault)
  /-- Selection sets nest deeper than allowed. -/
  | maxDepthExceeded (maxDepth : Nat)
  /-- No resolver is registered for a subscription. -/
  | subscriptionResolverNotFound (field : String)
  /-- The resolver of a subscription answered something else than a stream. -/
  | notStreamShaped (field : String) (typeName : String)
  /-- The stream of a subscription was handed out before. -/
  | streamAlreadyTaken (field : String)
  /-- The operation is not a subscription. -/
  | notASubscription
  /-- The subscription selects nothing. -/
  | emptySubscription
deriving DecidableEq

namespace ExecutionError

/-- The kind of an error. -/
def kind : ExecutionError → ExecutionErrorKind
  | noDefinitions | unsupportedDefinition | maxDepthExceeded _ => .document
  | resolverNotFound _ | fieldNotFound _ _ | notARecord _ _ | resolver _ _ => .resolution
  | argument _ => .argument
  | subscriptionResolverNotFound _ | notStreamShaped _ _ | streamAlreadyTaken _
  | notASubscription | emptySubscription => .subscription

/-- What an error comes from, in words, if it comes from another one. -/
def cause? : ExecutionError → Option String
  | resolver _ message => some message
  | argument (.invalidInt _ fault) => some fault.message
  | _ => none

/-- An error in words. -/
def message : ExecutionError → String
  | noDefinitions => "no definitions found"
  | unsupportedDefinition => "unsupported definition type: expected an operation"
  | resolverNotFound field => "no resolver found for field `" ++ field ++ "`"
  | fieldNotFound field typeName => "no field matching `" ++ field ++ "` on " ++ typeName
  | notARecord field typeName =>
    "cannot resolve field `" ++ field ++ "`: source is " ++ typeName ++ ", not a record"
  | resolver field message => "resolver for field `" ++ field ++ "` failed: " ++ message
  | argument (.variableNotProvided name) => "variable `" ++ name ++ "` not provided"
  | argument (.invalidInt literal fault) =>
    "invalid integer literal `" ++ literal ++ "`: " ++ fault.message
  | maxDepthExceeded maxDepth =>
    "selection nesting exceeds the maximum depth of " ++ toString maxDepth
  | subscriptionResolverNotFound field =>
    "no subscription resolver found for field `" ++ field ++ "`"
  | notStreamShaped field typeName =>
    "subscription resolver for field `" ++ field ++ "` returned " ++ typeName ++ ", not a stream"
  | streamAlreadyTaken field =>
    "the stream returned for field `" ++ field ++ "` has already been taken"
  | notASubscription => "provided operation is not a subscription"
  | emptySubscription => "subscription selection set is empty"

end ExecutionError

end GraphQuery
