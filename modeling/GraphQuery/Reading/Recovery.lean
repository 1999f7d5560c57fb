import GraphQuery.Reading

/-! # Recovery

The two limits of reading, and the ways in which it goes on after a fault.

* At most `maxItems` rounds are made in one construct. A round reads one item, passes one comma
  or meets the construct's end, so a construct that needs more rounds is cut short.
* Values, selection sets and list types nest at most `maxNesting` levels deep. A part that would
  lie deeper is skipped (`tooDeep`): the whole group if it starts with an opening bracket, and
  one token otherwise.

`items` is the round of every bracketed construct that holds items, and `close` looks for the
bracket that ends a construct. A closing bracket of another shape is never consumed: it is left
to an enclosing construct. -/

namespace GraphQuery

/-- How deep values, selection sets and list types may nest. -/
def maxNesting : Nat := 64

/-- How many rounds are made in one construct. -/
def maxItems : Nat := 10000

/-- **The rounds of reading**: how many are made in a construct whose rounds start at given tokens.
What reads constructs takes them as an argument that is found by itself. -/
class Rounds where
  /-- The number of rounds. -/
  rounds : List Token → Nat

export Rounds (rounds)

/-- **The limit**: unless others are asked for, there are as many rounds in one construct as in
every other. -/
instance Rounds.limited : Rounds := ⟨fun _ => maxItems⟩

/-- The limit is the same everywhere. -/
@[simp] theorem rounds_eq (ts : List Token) : rounds ts = maxItems := rfl

namespace Diagnostic

/-- A construct needed more rounds than there are. -/
def tooManyItems (construct : String) (next : Token) : Diagnostic where
  message := construct ++ " exceeds " ++ toString maxItems ++ " items; remaining input of this "
    ++ construct ++ " was not parsed"
  span := next.span
  cause := .iterationLimitExceeded

/-- A part lies deeper than nesting may go. -/
def nestedTooDeep (next : Token) : Diagnostic where
  message := "maximum nesting depth of " ++ toString maxNesting ++ " exceeded"
  span := next.span
  cause := .recursionLimitExceeded

end Diagnostic

namespace Reading

variable {α : Type} [Rounds]

/-- Records that the next token is not what was expected, and leaves it. -/
def unexpected (expectation : Expectation) (value : α) (ts : List Token) : Reading α :=
  ⟨value, [.unexpected expectation (nextToken ts)], ts⟩

/-- Records that the next token is not what was expected, and passes it. -/
def skipUnexpected (expectation : Expectation) (value : α) (ts : List Token) : Reading α :=
  ⟨value, [.unexpected expectation (nextToken ts)], dropToken ts⟩

/-- Passes the bracket that closes a construct, or records why it is missing. -/
def close (construct : Construct) (ts : List Token) : Reading Unit :=
  match nextKind ts with
  | .eof => ⟨(), [.unclosed construct (nextToken ts)], ts⟩
  | .closing shape =>
    if shape = construct.shape then ⟨(), [], ts.tail⟩
    else ⟨(), [.mismatched construct (nextToken ts)], ts⟩
  | _ => unexpected (.closing construct.shape) () ts

/-- **Skips a group.** Passes tokens until the brackets of the construct's shape that were
opened, `depth` of them before the first token, are all closed; other brackets do not count. -/
def skipGroup (construct : Construct) : (budget depth : Nat) → List Token → Reading Unit
  | 0, _, ts =>
    if nextKind ts = .eof then ⟨(), [.unclosed construct (nextToken ts)], ts⟩
    else ⟨(), [.tooManyItems construct.describe (nextToken ts)], ts⟩
  | budget + 1, depth, ts =>
    if nextKind ts = .eof then ⟨(), [.unclosed construct (nextToken ts)], ts⟩
    else if nextKind ts = .opening construct.shape then
      skipGroup construct budget (depth + 1) ts.tail
    else if nextKind ts = .closing construct.shape then
      if depth - 1 = 0 then ⟨(), [], ts.tail⟩ else skipGroup construct budget (depth - 1) ts.tail
    else skipGroup construct budget depth ts.tail

/-- The construct that a skipped group counts as, by its bracket. -/
def groupConstruct : Delimiter → Construct
  | .paren => .fieldArguments
  | .bracket => .listValue
  | .brace => .selectionSet

/-- Skips the next token, or the whole group that it opens; an end of input stays. -/
def skipSubtree (ts : List Token) : Reading Unit :=
  match nextKind ts with
  | .opening shape => skipGroup (groupConstruct shape) (rounds ts) 0 ts
  | _ => ⟨(), [], dropToken ts⟩

/-- Records that a part lies too deep, skips it, and puts a value in its place. -/
def tooDeep (value : α) (ts : List Token) : Reading α :=
  let skipped := skipSubtree ts
  ⟨value, .nestedTooDeep (nextToken ts) :: skipped.diagnostics, skipped.rest⟩

/-- **What one round makes of an item.** -/
inductive Item (α : Type) where
  /-- An item of the construct. -/
  | kept (value : α)
  /-- Nothing worth keeping. -/
  | skipped
  /-- A fault that spoils the whole construct, which was passed to its end. -/
  | spoilt (remark : String)

/-- **The items of a construct**: those kept, and the remark on what spoilt them if anything did. -/
structure Items (α : Type) where
  /-- The items kept, in order. -/
  kept : List α
  /-- What spoilt the construct. -/
  remark : Option String

/-- **Reads the items of a construct** whose opening bracket has been passed, up to and with its
closing bracket. Commas between items are passed. -/
def items (construct : Construct) (item : List Token → Reading (Item α)) :
    (budget : Nat) → List Token → Reading (Items α)
  | 0, ts => ⟨⟨[], none⟩, [.tooManyItems construct.describe (nextToken ts)], ts⟩
  | budget + 1, ts =>
    if construct.endsAt (nextKind ts) then (close construct ts).map fun _ => ⟨[], none⟩
    else if nextKind ts = .comma then items construct item budget ts.tail
    else
      (item ts).andThen fun
        | .kept value, ts =>
          (items construct item budget ts).map fun more => { more with kept := value :: more.kept }
        | .skipped, ts => items construct item budget ts
        | .spoilt remark, ts => ⟨⟨[], some remark⟩, [], ts⟩

end Reading

end GraphQuery
