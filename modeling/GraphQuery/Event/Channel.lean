import GraphQuery.Value

/-! # Event channels

A channel carries the events of a subscription from producers to one consumer. Producers hold
**senders**, the consumer takes the **stream** out of a **source**, once. The channel is bounded:
an event that is buffered occupies a slot, and so does a send that was promised one.

A send may wait for a slot. Waiting sends are served in the order they started: a slot that
becomes free is reserved for the longest-waiting send, which fills it when it next runs. The
consumer cancels the subscription by saying so or by dropping the stream, and dropping the last
handle of a source whose stream was never taken does so too. The cancellation is announced to the
senders, and the receiving end is closed; nothing is accepted from then on, but what is buffered can
still be read. The stream is closed when nothing is buffered and nothing can come any more. -/

namespace GraphQuery

/-- **Why an event was not sent.** -/
inductive SendFault where
  /-- The consumer has cancelled. -/
  | cancelled
  /-- Every slot is occupied. -/
  | full
deriving DecidableEq

namespace SendFault

/-- The fault in words. -/
def message : SendFault → String
  | cancelled => "subscription was cancelled by its consumer"
  | full => "subscription channel is full"

end SendFault

/-- **A send that has not come to an end.** -/
structure PendingSend where
  /-- The number of the send. -/
  task : Nat
  /-- The event to send. -/
  event : Value
  /-- Whether a slot is reserved for it. -/
  granted : Bool

/-- **Where the stream of a channel is.** -/
inductive StreamPlace where
  /-- Still in its source. -/
  | held
  /-- Taken by the consumer. -/
  | taken
  /-- Dropped. -/
  | dropped
deriving DecidableEq

/-- **A channel.** -/
structure Channel where
  /-- The number of slots. -/
  capacity : Nat
  /-- The buffered events, the oldest first. -/
  buffer : List Value
  /-- The sends that have not come to an end, in the order they started. -/
  pending : List PendingSend
  /-- The number of senders, without the one that each pending send holds. -/
  senders : Nat
  /-- The number of handles of the source. -/
  sources : Nat
  /-- Where the stream is. -/
  stream : StreamPlace
  /-- Whether the cancellation of the subscription was announced. -/
  cancelled : Bool
  /-- Whether the receiving end was closed. -/
  closed : Bool

/-- **What a channel reports** to a log. -/
inductive ChannelNotice where
  /-- A channel was opened. -/
  | opened (capacity : Nat)
  /-- The consumer cancelled a subscription that was not cancelled yet. -/
  | cancelled
deriving DecidableEq

/-- **What a read gives.** -/
inductive Received where
  /-- The oldest buffered event. -/
  | event (value : Value)
  /-- Nothing, now and ever after. -/
  | closed
  /-- Nothing yet. -/
  | pending

/-- **What one step of a send gives.** -/
inductive SendProgress where
  /-- The send has come to an end. -/
  | done (result : Except SendFault Unit)
  /-- The send waits for a slot. -/
  | waiting

namespace Channel

/-- How many events a channel holds where its producer has no better estimate. -/
def defaultCapacity : Nat := 16

/-- A new channel with one sender and one handle of its source; it has at least one slot. Slots are
counted in words whose three upper bits are taken: opening a channel of `2 ^ 61` slots or more ends
the program, and this is left out here, where a channel can have any number of slots. -/
def fresh (capacity : Nat) : Channel where
  capacity := max capacity 1
  buffer := []
  pending := []
  senders := 1
  sources := 1
  stream := .held
  cancelled := false
  closed := false

/-- The number of slots reserved for waiting sends. -/
def reserved (c : Channel) : Nat := (c.pending.filter fun send => send.granted).length

/-- The number of free slots. -/
def free (c : Channel) : Nat := c.capacity - (c.buffer.length + c.reserved)

/-- Adds an event to the buffer. -/
def push (c : Channel) (event : Value) : Channel := { c with buffer := c.buffer ++ [event] }

/-- Reserves a slot for the first send that waits. -/
def grantFirst : List PendingSend → List PendingSend
  | [] => []
  | send :: rest =>
    if send.granted then send :: grantFirst rest else { send with granted := true } :: rest

/-- Reserves a slot that became free, unless the receiving end was closed. -/
def settle (c : Channel) : Channel :=
  if c.closed ∨ c.free = 0 then c else { c with pending := grantFirst c.pending }

/-- Whether a sender is told that the subscription was cancelled. -/
def isCancelled (c : Channel) : Bool := c.cancelled || c.closed

/-- **Sends an event without waiting.** A closed receiving end counts as a cancellation. -/
def trySend (c : Channel) (event : Value) : Except SendFault Unit × Channel :=
  if c.cancelled then (.error .cancelled, c)
  else if c.closed then (.error .cancelled, c)
  else if c.free = 0 then (.error .full, c)
  else (.ok (), c.push event)

/-- **Starts a send that waits** for a slot if there is none. -/
def startSend (c : Channel) (task : Nat) (event : Value) : SendProgress × Channel :=
  if c.isCancelled then (.done (.error .cancelled), c)
  else if c.free = 0 then (.waiting, { c with pending := c.pending ++ [⟨task, event, false⟩] })
  else (.done (.ok ()), c.push event)

/-- The pending send of a number. -/
def pendingSend? (c : Channel) (task : Nat) : Option PendingSend :=
  c.pending.find? fun send => send.task = task

/-- The channel without a pending send, whose slot goes to the next one if it had one. -/
def forget (c : Channel) (task : Nat) : Channel :=
  settle { c with pending := c.pending.filter fun send => send.task ≠ task }

/-- **Goes on with a pending send**, if there is one of this number. -/
def pollSend? (c : Channel) (task : Nat) : Option (SendProgress × Channel) :=
  (c.pendingSend? task).map fun send =>
    if c.isCancelled then (.done (.error .cancelled), c.forget task)
    else if send.granted then
      let rest := { c with pending := c.pending.filter fun other => other.task ≠ task }
      (.done (.ok ()), rest.push send.event)
    else (.waiting, c)

/-- Gives up a pending send, if there is one of this number. -/
def dropSend? (c : Channel) (task : Nat) : Option Channel :=
  (c.pendingSend? task).map fun _ => c.forget task

/-- Whether any sender is left, one held by a pending send included. -/
def hasSender (c : Channel) : Bool := c.senders ≠ 0 || !c.pending.isEmpty

/-- **Reads from the stream.** -/
def receive (c : Channel) : Received × Channel :=
  match c.buffer with
  | event :: rest => (.event event, settle { c with buffer := rest })
  | [] =>
    if (c.closed && c.reserved = 0) || !c.hasSender then (.closed, c) else (.pending, c)

/-- Cancels the subscription. -/
def cancel (c : Channel) : Channel := { c with cancelled := true, closed := true }

/-- Drops the stream, and with it what is buffered. -/
def dropStream (c : Channel) : Channel :=
  { c with cancelled := true, closed := true, stream := .dropped, buffer := [] }

/-- **Takes the stream out of its source**; only the first time there is one to take. -/
def take (c : Channel) : Bool × Channel :=
  if c.stream = .held then (true, { c with stream := .taken }) else (false, c)

/-- Whether the stream is in its source no more. -/
def isTaken (c : Channel) : Bool := c.stream ≠ .held

/-- One more sender. -/
def cloneSender (c : Channel) : Channel := { c with senders := c.senders + 1 }

/-- One sender less. -/
def dropSender (c : Channel) : Channel := { c with senders := c.senders - 1 }

/-- One more handle of the source. -/
def cloneSource (c : Channel) : Channel := { c with sources := c.sources + 1 }

/-- One handle of the source less; with the last one goes a stream that was not taken. -/
def dropSource (c : Channel) : Channel :=
  let fewer := { c with sources := c.sources - 1 }
  if fewer.sources = 0 ∧ c.stream = .held then fewer.dropStream else fewer

/-- A source as diagnostics show it. -/
def describeSource (c : Channel) : String :=
  "EventSource \x7b taken: " ++ (if c.isTaken then "true" else "false") ++ " \x7d"

end Channel

end GraphQuery
