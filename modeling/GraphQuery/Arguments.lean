import GraphQuery.Text.Integer
import GraphQuery.Document
import GraphQuery.Variables

/-! # From literals to values

There are two ways to give the arguments of a field their values. The **lenient** one never
fails: a variable that was not provided is null, and an integer that cannot be read is zero. The
**strict** one reports the first of either instead, going through the arguments and into their
lists and objects from left to right. Wherever the strict way succeeds, both give the same. -/

namespace GraphQuery

/-- **Why strict arguments cannot be built.** -/
inductive ArgumentFault where
  /-- A variable has no value. -/
  | variableNotProvided (name : String)
  /-- The text of an integer cannot be read. -/
  | invalidInt (literal : String) (fault : IntegerFault)
deriving DecidableEq

namespace Literal

mutual

/-- **The value of a literal**, leniently. -/
def toValue (given : Variables) : Literal → Value
  | variableRef name => (given.get? name).getD .null
  | int digits =>
    match Integer.parse digits with
    | .ok value => .int value
    | .error _ => .int 0
  | string contents => .string contents
  | boolean value => .boolean value
  | enum name => .string name
  | illegal text => .string text
  | array items => .list (itemsToValues given items)
  | object fields => .object (fieldsToValues given fields)

/-- The values of the items of a list. -/
def itemsToValues (given : Variables) : List Literal → List Value
  | [] => []
  | item :: rest => toValue given item :: itemsToValues given rest

/-- The values of the fields of an object. -/
def fieldsToValues (given : Variables) : List (String × Literal) → List (String × Value)
  | [] => []
  | (key, value) :: rest => (key, toValue given value) :: fieldsToValues given rest

end

mutual

/-- **The value of a literal**, strictly. -/
def resolve (given : Variables) : Literal → Except ArgumentFault Value
  | variableRef name =>
    match given.get? name with
    | some value => .ok value
    | none => .error (.variableNotProvided name)
  | int digits =>
    match Integer.parse digits with
    | .ok value => .ok (.int value)
    | .error fault => .error (.invalidInt digits fault)
  | string contents => .ok (.string contents)
  | boolean value => .ok (.boolean value)
  | enum name => .ok (.string name)
  | illegal text => .ok (.string text)
  | array items => (resolveItems given items).map .list
  | object fields => (resolveFields given fields).map .object

/-- The values of the items of a list, up to the first fault. -/
def resolveItems (given : Variables) : List Literal → Except ArgumentFault (List Value)
  | [] => .ok []
  | item :: rest =>
    match resolve given item with
    | .error fault => .error fault
    | .ok value => (resolveItems given rest).map (value :: ·)

/-- The values of the fields of an object, up to the first fault. -/
def resolveFields (given : Variables) :
    List (String × Literal) → Except ArgumentFault (List (String × Value))
  | [] => .ok []
  | (key, literal) :: rest =>
    match resolve given literal with
    | .error fault => .error fault
    | .ok value => (resolveFields given rest).map ((key, value) :: ·)

end

end Literal

namespace Arguments

/-- **The arguments of a field**, leniently; of a repeated name the last value counts. -/
def lenient (field : Field) (given : Variables) : Arguments :=
  Entries.ofPairs (field.arguments.map fun argument =>
    (argument.name, argument.value.toValue given))

/-- The values of arguments in order, up to the first fault. -/
def resolveAll (given : Variables) :
    List Argument → Except ArgumentFault (List (String × Value))
  | [] => .ok []
  | argument :: rest =>
    match argument.value.resolve given with
    | .error fault => .error fault
    | .ok value => (resolveAll given rest).map ((argument.name, value) :: ·)

/-- **The arguments of a field**, strictly; of a repeated name the last value counts, but all
are looked at. -/
def strict (field : Field) (given : Variables) : Except ArgumentFault Arguments :=
  (resolveAll given field.arguments).map Entries.ofPairs

end Arguments

end GraphQuery
