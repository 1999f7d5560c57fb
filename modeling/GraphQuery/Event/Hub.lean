import GraphQuery.Event.Channel

/-! # The hub

The hub keeps what resolvers share: the event channels that were opened, each known by its
number, and the supply of identities for records. Resolvers act on it and on nothing else. What
channels have to report is kept until someone collects it. -/

namespace GraphQuery

/-- **The channels that were opened**, and the supply of identities. -/
structure Hub where
  /-- The channels, each at the place of its number. -/
  channels : List Channel
  /-- The next identity of a record. -/
  nextRecord : Nat
  /-- What channels reported and nobody has collected, in order. -/
  notices : List ChannelNotice

namespace Hub

/-- A hub where nothing has happened. -/
def empty : Hub := ⟨[], 0, []⟩

/-- Puts a notice after those not collected yet. -/
def report (notice : ChannelNotice) (hub : Hub) : Hub :=
  { hub with notices := hub.notices ++ [notice] }

/-- **Opens a channel** and answers its number. -/
def openChannel (capacity : Nat) : StateM Hub Nat := fun hub =>
  let channel := Channel.fresh capacity
  (hub.channels.length,
    report (.opened channel.capacity) { hub with channels := hub.channels ++ [channel] })

/-- The identity of a new record. -/
def newRecord : StateM Hub Nat := fun hub =>
  (hub.nextRecord, { hub with nextRecord := hub.nextRecord + 1 })

/-- Acts on a channel, if there is one of this number. -/
def onChannel {α : Type} (id : Nat) (act : Channel → α × Channel) : StateM Hub (Option α) :=
  fun hub =>
    match hub.channels[id]? with
    | none => (none, hub)
    | some channel =>
      let (answer, channel) := act channel
      (some answer, { hub with channels := hub.channels.set id channel })

/-- Asks something of a channel, if there is one of this number. -/
def ask {α : Type} (id : Nat) (question : Channel → α) : StateM Hub (Option α) := fun hub =>
  (hub.channels[id]?.map question, hub)

/-- **Takes the stream of a channel**; it can be had once. -/
def takeStream (id : Nat) : StateM Hub Bool := fun hub =>
  let (taken, hub) := onChannel id Channel.take hub
  (taken.getD false, hub)

/-- Cancels the subscription of a channel, and reports it the first time. -/
def cancel (id : Nat) : StateM Hub Unit := fun hub =>
  let (before, hub) := onChannel id (fun channel => (channel.cancelled, channel.cancel)) hub
  ((), if before = some false then report .cancelled hub else hub)

/-- Hands over the notices not collected yet. -/
def collect : StateM Hub (List ChannelNotice) := fun hub =>
  (hub.notices, { hub with notices := [] })

end Hub

end GraphQuery
