import GraphQuery.Subscription
import GraphQuery.Proofs.Failures
import GraphQuery.Proofs.Chronicles

/-! # Handing out streams

The stream of a channel is handed out at most once, and whether it was is a **flag** that every
handle of its source reports. A subscription hands out the stream that its resolver answers; a start
that fails hands out nothing, whatever it fails for.

Resolvers share the hub with everyone, and may do there what they like except take a stream. What
everyone but a taker leaves alone is said once (`Hub.LeavesStreams`), and what a taker does beyond
that, too (`Hub.TurnsFlag`). A subscription is of the second kind if it succeeds, and of the first
if it fails. -/

namespace GraphQuery

/-! ## Flags -/

namespace Channel

/-- **What the handles of a source report**: whether its stream was taken. Nothing is reported
where no handle is left. -/
def flag? (c : Channel) : Option Bool := if c.sources = 0 then none else some c.isTaken

theorem flag?_of_handle {c : Channel} (h : c.sources ≠ 0) : c.flag? = some c.isTaken := if_neg h

/-- A flag that is reported is that of the stream. -/
theorem isTaken_of_flag? {c : Channel} {flag : Bool} (h : c.flag? = some flag) :
    c.isTaken = flag := by
  unfold flag? at h
  split at h
  · cases h
  · exact Option.some.inj h

/-- **Nobody takes the stream** of what may be a channel, before and after something is done. -/
inductive StreamLeft : Option Channel → Option Channel → Prop where
  /-- There is no channel. -/
  | absent : StreamLeft none none
  /-- A channel is opened, and no handle reports that its stream was taken. -/
  | opened {after : Channel} (flag : after.flag? ≠ some true) : StreamLeft none (some after)
  /-- A channel stays. The handles that are left report what they reported before, and a stream
  that was taken is not put back. -/
  | kept {c after : Channel} (flag : after.flag? = none ∨ after.flag? = c.flag?)
    (isTaken : c.isTaken → after.isTaken) : StreamLeft (some c) (some after)

namespace StreamLeft

theorem refl (c : Option Channel) : StreamLeft c c := by
  cases c with
  | none => exact .absent
  | some c => exact .kept (.inr rfl) id

/-- **Whatever is done with a channel leaves its stream**, unless the stream is taken. -/
theorem perform {c : Channel} {deed : Deed} (held : c.stream = .held → c.sources ≠ 0)
    (possible : deed.Possible c) (hreply : ¬ Chronicle.takes (deed, (c.perform deed).1)) :
    StreamLeft (some c) (some (c.perform deed).2) := by
  have hturn := Turn.perform held possible
  refine .kept ?_ ?_
  · by_cases hlast : (c.perform deed).2.sources = 0
    · exact .inl (if_pos hlast)
    · have hhandle : c.sources ≠ 0 := fun hzero => hlast (hturn.sources_eq_zero hzero)
      have hstream : (c.perform deed).2.stream = .held ↔ c.stream = .held := by
        simp [hturn.held_iff, hreply, hlast]
      right
      simp [flag?_of_handle, hlast, hhandle, isTaken, hstream]
  · intro htaken
    simp only [isTaken, decide_not, Bool.not_eq_true', decide_eq_false_iff_not] at htaken ⊢
    exact fun hheld => htaken (hturn.held_iff.1 hheld).1

end StreamLeft

end Channel

namespace Hub

/-- **Nobody takes a stream** on the way from one state of the hub to another. -/
def LeavesStreams (hub after : Hub) : Prop :=
  ∀ id : Nat, Channel.StreamLeft hub.channels[id]? after.channels[id]?

/-- **The flag of one channel is turned**, from not set to set, and no other one. -/
structure TurnsFlag (id : Nat) (hub after : Hub) : Prop where
  /-- If the channel was there before, its handles reported that its stream was not taken. -/
  before : ∀ c, hub.channels[id]? = some c → c.flag? = some false
  /-- Now they report that it is. -/
  turned : ∃ later, after.channels[id]? = some later ∧ later.flag? = some true
  /-- Nobody has taken another stream. -/
  others : ∀ other, other ≠ id → Channel.StreamLeft hub.channels[other]? after.channels[other]?

variable {hub middle after : Hub}

theorem LeavesStreams.refl (hub : Hub) : LeavesStreams hub hub := fun _ => .refl _

/-- Nobody takes a stream where no channel changes. -/
theorem leavesStreams_of_eq (h : after.channels = hub.channels) : LeavesStreams hub after := by
  intro id
  rw [h]
  exact .refl _

/-- Opening a channel takes no stream. -/
theorem leavesStreams_openChannel (capacity : Nat) (hub : Hub) :
    LeavesStreams hub (openChannel capacity hub).2 := by
  intro id
  show Channel.StreamLeft _ (hub.channels ++ [Channel.fresh capacity])[id]?
  by_cases hid : id < hub.channels.length
  · rw [List.getElem?_append_left hid]
    exact .refl _
  · have hnone : hub.channels[id]? = none := List.getElem?_eq_none (Nat.le_of_not_lt hid)
    rw [hnone, List.getElem?_append_right (Nat.le_of_not_lt hid), List.getElem?_singleton]
    split
    · exact .opened (by simp [Channel.flag?, Channel.fresh, Channel.isTaken])
    · exact .absent

/-- What changes one channel takes no stream if it leaves the stream of that channel. -/
theorem leavesStreams_set {id : Nat} {c : Channel}
    (h : Channel.StreamLeft hub.channels[id]? (some c))
    (hafter : after.channels = hub.channels.set id c) : LeavesStreams hub after := by
  intro other
  rw [hafter]
  by_cases hother : other = id
  · subst hother
    by_cases hlt : other < hub.channels.length
    · rwa [List.getElem?_set_self hlt]
    · rw [List.set_eq_of_length_le (Nat.le_of_not_lt hlt)]
      exact .refl _
  · rw [List.getElem?_set_ne (Ne.symm hother)]
    exact .refl _

/-- **Whatever is done with a channel takes no stream**, unless its stream is taken. -/
theorem leavesStreams_perform (id : Nat) {c : Channel} (hc : hub.channels[id]? = some c)
    {deed : Channel.Deed} (held : c.stream = .held → c.sources ≠ 0) (possible : deed.Possible c)
    (hreply : ¬ Channel.Chronicle.takes (deed, (c.perform deed).1))
    (hafter : after.channels = hub.channels.set id (c.perform deed).2) :
    LeavesStreams hub after := by
  refine leavesStreams_set ?_ hafter
  rw [hc]
  exact .perform held possible hreply

/-- A channel whose stream was taken stays one, if nobody takes a stream. -/
theorem LeavesStreams.isTaken (h : LeavesStreams hub after) {id : Nat} {c : Channel}
    (hc : hub.channels[id]? = some c) (htaken : c.isTaken) :
    ∃ later, after.channels[id]? = some later ∧ later.isTaken := by
  have hid := h id
  rw [hc] at hid
  generalize hafter : after.channels[id]? = later? at hid
  obtain - | - | ⟨-, hstill⟩ := hid
  exact ⟨_, rfl, hstill htaken⟩

/-- **Taking a stream that is there** turns its flag, whatever was done before. -/
theorem LeavesStreams.take (h : LeavesStreams hub middle) {id : Nat} {c : Channel}
    (hc : middle.channels[id]? = some c) (hhandle : c.sources ≠ 0) (hheld : c.stream = .held)
    (hafter : after.channels = middle.channels.set id { c with stream := .taken }) :
    TurnsFlag id hub after where
  before earlier hearlier := by
    have hid := h id
    rw [hearlier, hc] at hid
    obtain - | - | ⟨hflag, -⟩ := hid
    -- A stream that is held is reported as not taken, and the report was kept.
    have huntaken : c.flag? = some false := by
      simp [Channel.flag?_of_handle hhandle, Channel.isTaken, hheld]
    rcases hflag with hnone | hsame
    · simp [huntaken] at hnone
    · rw [← hsame, huntaken]
  turned := by
    refine ⟨{ c with stream := .taken }, ?_, ?_⟩
    · rw [hafter, List.getElem?_set_self (List.getElem?_eq_some_iff.1 hc).1]
    · exact Channel.flag?_of_handle hhandle
  others other hother := by
    rw [hafter, List.getElem?_set_ne hother.symm]
    exact h other

/-- What was taken is not put back when another stream is taken. -/
theorem TurnsFlag.isTaken {taken : Nat} (h : TurnsFlag taken hub after) {id : Nat} {c : Channel}
    (hc : hub.channels[id]? = some c) (htaken : c.isTaken) :
    ∃ later, after.channels[id]? = some later ∧ later.isTaken := by
  by_cases hid : id = taken
  · subst hid
    have hflag := Channel.isTaken_of_flag? (h.before c hc)
    rw [htaken] at hflag
    cases hflag
  · have hleft := h.others id hid
    rw [hc] at hleft
    generalize hafter : after.channels[id]? = later? at hleft
    obtain - | - | ⟨-, hstill⟩ := hleft
    exact ⟨_, rfl, hstill htaken⟩

end Hub

/-! ## Resolvers -/

/-- **A resolver that takes no stream**; of the streams it answers it holds a handle. -/
structure Resolver.TakesNoStream (resolver : Resolver) : Prop where
  /-- It takes no stream itself. -/
  leaves : ∀ source arguments (hub : Hub), hub.LeavesStreams (resolver source arguments hub).2
  /-- The stream that it answers is that of a channel whose source has a handle. -/
  holds : ∀ source arguments (hub : Hub) id, (resolver source arguments hub).1 = .ok (.stream id) →
    ∃ c, (resolver source arguments hub).2.channels[id]? = some c ∧ c.sources ≠ 0

namespace Execution

variable {α : Type} {host : Host}

/-- What is done with the hub does not fail. -/
theorem onHub_of_eq {act : StateM Hub α} {value : α} {hub : Hub}
    (h : act host.hub = (value, hub)) :
    ∃ after : Host, (liftM (Host.onHub act) : Execution α) host = (.ok value, after)
      ∧ after.hub.channels = hub.channels := by
  refine ⟨(Host.onHub act host).2, ?_, ?_⟩
  · show (Except.ok (act host.hub).1, (Host.onHub act host).2) = _
    rw [h]
  · show (act host.hub).2.channels = _
    rw [h]

/-- A resolver that answers a value. -/
theorem call_of_ok {resolver : Resolver} {source : Option Value} {arguments : Arguments}
    {value : Value} (h : (resolver source arguments host.hub).1 = .ok value) (field : String) :
    call field resolver source arguments host
      = (.ok value, (Host.onHub (resolver source arguments) host).2) := by
  have hanswer : (Host.onHub (resolver source arguments) host).1 = .ok value := h
  rw [call]
  split <;> simp_all

/-- A resolver that fails. -/
theorem call_of_error {resolver : Resolver} {source : Option Value} {arguments : Arguments}
    {failure : ResolverError} (h : (resolver source arguments host.hub).1 = .error failure)
    (field : String) :
    call field resolver source arguments host
      = (.error (.resolver field failure.message),
        (Host.onHub (resolver source arguments) host).2) := by
  have hanswer : (Host.onHub (resolver source arguments) host).1 = .error failure := h
  rw [call]
  split <;> simp_all

end Execution

namespace Hub

/-- A stream that is there is taken. -/
theorem takeStream_of_held {id : Nat} {hub : Hub} {c : Channel} (hc : hub.channels[id]? = some c)
    (hheld : c.stream = .held) :
    takeStream id hub
      = (true, { hub with channels := hub.channels.set id { c with stream := .taken } }) := by
  simp [takeStream, onChannel, hc, Channel.take, hheld]

/-- Where there is no stream, there is nothing to take, and nothing changes. -/
theorem takeStream_of_gone {id : Nat} {hub : Hub}
    (hgone : ∀ c, hub.channels[id]? = some c → c.stream ≠ .held) :
    takeStream id hub = (false, hub) := by
  unfold takeStream onChannel
  cases hc : hub.channels[id]? with
  | none => rfl
  | some c =>
    obtain ⟨hid, rfl⟩ := List.getElem?_eq_some_iff.1 hc
    simp [Channel.take, hgone _ hc]

end Hub

namespace Executor

/-- No resolver of a subscription takes a stream. -/
def TakesNoStream (executor : Executor) : Prop :=
  ∀ name (resolver : Resolver), executor.registry.lookup? .subscription name = some resolver →
    resolver.TakesNoStream

/-- **The resolver of a field is called** with some arguments. -/
structure Calls (executor : Executor) (field : Field) (given : Variables) (resolver : Resolver)
    (arguments : Arguments) : Prop where
  /-- The resolver is the one registered for the field. -/
  lookup : executor.registry.lookup? .subscription field.name = some resolver
  /-- The arguments are those built for it. -/
  build : executor.buildArguments field given = .ok arguments

/-- **How a subscription to a field comes out**, given a hub, and the channels it leaves. -/
inductive Subscribes (executor : Executor) (source : Option Value) (field : Field)
    (given : Variables) (hub : Hub) : Except ExecutionError Nat → List Channel → Prop where
  /-- There is no resolver. -/
  | unresolved (lookup : executor.registry.lookup? .subscription field.name = none) :
    Subscribes executor source field given hub
      (.error (.subscriptionResolverNotFound field.name)) hub.channels
  /-- The arguments cannot be built. -/
  | misargued {fault : ArgumentFault}
    (build : executor.buildArguments field given = .error (.argument fault)) :
    Subscribes executor source field given hub (.error (.argument fault)) hub.channels
  /-- The resolver fails. -/
  | failed {resolver : Resolver} {arguments : Arguments} {failure : ResolverError}
    (calls : executor.Calls field given resolver arguments)
    (answer : (resolver source arguments hub).1 = .error failure) :
    Subscribes executor source field given hub (.error (.resolver field.name failure.message))
      (resolver source arguments hub).2.channels
  /-- The resolver answers something else. -/
  | streamless {resolver : Resolver} {arguments : Arguments} {value : Value}
    (calls : executor.Calls field given resolver arguments)
    (answer : (resolver source arguments hub).1 = .ok value) (shape : value.stream? = none) :
    Subscribes executor source field given hub
      (.error (.notStreamShaped field.name value.typeName))
      (resolver source arguments hub).2.channels
  /-- The stream was taken before, or there is none. -/
  | late {resolver : Resolver} {arguments : Arguments} {id : Nat}
    (calls : executor.Calls field given resolver arguments)
    (answer : (resolver source arguments hub).1 = .ok (.stream id))
    (gone : ∀ c, (resolver source arguments hub).2.channels[id]? = some c → c.stream ≠ .held) :
    Subscribes executor source field given hub (.error (.streamAlreadyTaken field.name))
      (resolver source arguments hub).2.channels
  /-- The stream is taken. -/
  | started {resolver : Resolver} {arguments : Arguments} {id : Nat} {c : Channel}
    (calls : executor.Calls field given resolver arguments)
    (answer : (resolver source arguments hub).1 = .ok (.stream id))
    (channel : (resolver source arguments hub).2.channels[id]? = some c)
    (held : c.stream = .held) :
    Subscribes executor source field given hub (.ok id)
      ((resolver source arguments hub).2.channels.set id { c with stream := .taken })

section Run

variable {executor : Executor} {source : Option Value} {field : Field} {given : Variables}
  {host : Host} {resolver : Resolver} {arguments : Arguments}

/-- Where the resolver is called, all depends on its answer. -/
theorem Calls.subscriptionChannel_eq (h : executor.Calls field given resolver arguments)
    (source : Option Value) :
    executor.subscriptionChannel source field given
      = Execution.call field.name resolver source arguments >>= fun
        | .stream channel => pure channel
        | other => throw (.notStreamShaped field.name other.typeName) := by
  simp only [subscriptionChannel, h.lookup, h.build]
  rfl

/-- A resolver that fails gives no stream. -/
theorem Calls.subscriptionChannel_of_error (h : executor.Calls field given resolver arguments)
    {failure : ResolverError} (hanswer : (resolver source arguments host.hub).1 = .error failure) :
    executor.subscriptionChannel source field given host
      = (.error (.resolver field.name failure.message),
        (Host.onHub (resolver source arguments) host).2) := by
  rw [h.subscriptionChannel_eq]
  exact Execution.bind_of_error (Execution.call_of_error hanswer field.name) _

/-- Nor does one that answers something else. -/
theorem Calls.subscriptionChannel_of_other (h : executor.Calls field given resolver arguments)
    {value : Value} (hanswer : (resolver source arguments host.hub).1 = .ok value)
    (hshape : value.stream? = none) :
    executor.subscriptionChannel source field given host
      = (.error (.notStreamShaped field.name value.typeName),
        (Host.onHub (resolver source arguments) host).2) := by
  rw [h.subscriptionChannel_eq, Execution.bind_of_ok (Execution.call_of_ok hanswer field.name)]
  split
  · cases hshape
  · rfl

/-- A stream is known by its channel. -/
theorem Calls.subscriptionChannel_of_stream (h : executor.Calls field given resolver arguments)
    {id : Nat} (hanswer : (resolver source arguments host.hub).1 = .ok (.stream id)) :
    executor.subscriptionChannel source field given host
      = (.ok id, (Host.onHub (resolver source arguments) host).2) := by
  rw [h.subscriptionChannel_eq, Execution.bind_of_ok (Execution.call_of_ok hanswer field.name)]
  rfl

/-- A start that fails before there is a stream. -/
theorem subscribe_of_error {error : ExecutionError} {after : Host}
    (h : executor.subscriptionChannel source field given host = (.error error, after)) :
    executor.subscribe source field given host = (.error error, after) :=
  Execution.bind_of_error h _

/-- A start that finds the stream in its source takes it. -/
theorem subscribe_of_held {id : Nat} {after : Host} {c : Channel}
    (h : executor.subscriptionChannel source field given host = (.ok id, after))
    (hc : after.hub.channels[id]? = some c) (hheld : c.stream = .held) :
    ∃ started : Host, executor.subscribe source field given host = (.ok id, started)
      ∧ started.hub.channels = after.hub.channels.set id { c with stream := .taken } := by
  obtain ⟨taken, htake, hchannels⟩ := Execution.onHub_of_eq (Hub.takeStream_of_held hc hheld)
  have hrun : executor.subscribe source field given host = _ := Execution.bind_of_ok h _
  rw [Execution.bind_of_ok htake] at hrun
  exact ⟨_, hrun, hchannels⟩

/-- A start that finds no stream in its source fails. -/
theorem subscribe_of_gone {id : Nat} {after : Host}
    (h : executor.subscriptionChannel source field given host = (.ok id, after))
    (hgone : ∀ c, after.hub.channels[id]? = some c → c.stream ≠ .held) :
    ∃ late : Host, executor.subscribe source field given host
        = (.error (.streamAlreadyTaken field.name), late)
      ∧ late.hub.channels = after.hub.channels := by
  obtain ⟨late, htake, hchannels⟩ := Execution.onHub_of_eq (Hub.takeStream_of_gone hgone)
  have hrun : executor.subscribe source field given host = _ := Execution.bind_of_ok h _
  rw [Execution.bind_of_ok htake] at hrun
  exact ⟨late, hrun, hchannels⟩

end Run

/-- **A subscription comes out in one of these ways.** -/
theorem subscribes (executor : Executor) (source : Option Value) (field : Field)
    (given : Variables) (host : Host) :
    Subscribes executor source field given host.hub (executor.subscribe source field given host).1
      (executor.subscribe source field given host).2.hub.channels := by
  -- The ways are told apart in the order in which they can go wrong.
  cases hlookup : executor.registry.lookup? .subscription field.name with
  | none =>
    have hchannel : executor.subscriptionChannel source field given host
        = (.error (.subscriptionResolverNotFound field.name), host) := by
      simp only [subscriptionChannel, hlookup]
      rfl
    rw [subscribe_of_error hchannel]
    exact .unresolved hlookup
  | some resolver =>
    cases hbuild : executor.buildArguments field given with
    | error error =>
      obtain ⟨fault, rfl⟩ := exists_argument_of_buildArguments hbuild
      have hchannel : executor.subscriptionChannel source field given host
          = (.error (.argument fault), host) := by
        simp only [subscriptionChannel, hlookup, hbuild]
        rfl
      rw [subscribe_of_error hchannel]
      exact .misargued hbuild
    | ok arguments =>
      have hcalls : executor.Calls field given resolver arguments := ⟨hlookup, hbuild⟩
      cases hanswer : (resolver source arguments host.hub).1 with
      | error failure =>
        rw [subscribe_of_error (hcalls.subscriptionChannel_of_error hanswer)]
        exact .failed hcalls hanswer
      | ok value =>
        cases hshape : value.stream? with
        | none =>
          rw [subscribe_of_error (hcalls.subscriptionChannel_of_other hanswer hshape)]
          exact .streamless hcalls hanswer hshape
        | some id =>
          obtain rfl : value = .stream id := by
            cases value <;> simp_all [Value.stream?]
          have hchannel := hcalls.subscriptionChannel_of_stream hanswer
          by_cases hheld : ∃ c, (resolver source arguments host.hub).2.channels[id]? = some c
              ∧ c.stream = .held
          · obtain ⟨c, hc, hheld⟩ := hheld
            obtain ⟨started, hrun, hchannels⟩ := subscribe_of_held hchannel hc hheld
            rw [hrun, hchannels]
            exact .started hcalls hanswer hc hheld
          · have hgone : ∀ c, (resolver source arguments host.hub).2.channels[id]? = some c →
                c.stream ≠ .held := fun c hc hstream => hheld ⟨c, hc, hstream⟩
            obtain ⟨late, hrun, hchannels⟩ := subscribe_of_gone hchannel hgone
            rw [hrun, hchannels]
            exact .late hcalls hanswer hgone

/-- **The resolver of a field answers a stream**, given a hub. -/
def AnswersStream (executor : Executor) (source : Option Value) (field : Field)
    (given : Variables) (hub : Hub) (id : Nat) : Prop :=
  ∃ resolver arguments, executor.Calls field given resolver arguments ∧
    (resolver source arguments hub).1 = .ok (.stream id)

namespace Subscribes

variable {executor : Executor} {source : Option Value} {field : Field} {given : Variables}
  {hub after : Hub} {result : Except ExecutionError Nat}

/-- **A start that succeeds takes the stream that its resolver answers**, and no other. -/
theorem turnsFlag {id : Nat} (hexecutor : executor.TakesNoStream)
    (h : Subscribes executor source field given hub (.ok id) after.channels) :
    executor.AnswersStream source field given hub id ∧ hub.TurnsFlag id after := by
  generalize hchannels : after.channels = channels at h
  cases h with
  | @started resolver arguments _ c hcalls hanswer hc hheld =>
    have hresolver := hexecutor _ _ hcalls.lookup
    obtain ⟨other, hother, hhandle⟩ := hresolver.holds _ _ _ _ hanswer
    obtain rfl := Option.some.inj (hc.symm.trans hother)
    have hleaves := hresolver.leaves source arguments hub
    exact ⟨⟨_, _, hcalls, hanswer⟩, hleaves.take hc hhandle hheld hchannels⟩

/-- **A start that fails takes no stream**, whatever it fails for. -/
theorem leavesStreams {error : ExecutionError} (hexecutor : executor.TakesNoStream)
    (h : Subscribes executor source field given hub (.error error) after.channels) :
    hub.LeavesStreams after := by
  generalize hchannels : after.channels = channels at h
  intro id
  rw [hchannels]
  cases h with
  | unresolved | misargued => exact .refl _
  | failed hcalls | streamless hcalls | late hcalls =>
    exact (hexecutor _ _ hcalls.lookup).leaves source _ hub id

/-- The stream that a resolver answers is gone afterwards exactly if it was taken before. -/
theorem gone_iff {resolver : Resolver} {arguments : Arguments} {id : Nat}
    (hresolver : resolver.TakesNoStream)
    (hanswer : (resolver source arguments hub).1 = .ok (.stream id)) :
    (∀ c, (resolver source arguments hub).2.channels[id]? = some c → c.stream ≠ .held) ↔
      ∃ c, hub.channels[id]? = some c ∧ c.flag? = some true := by
  -- The channel of the answered stream has a handle, so that its flag is reported.
  obtain ⟨later, hlater, hhandle⟩ := hresolver.holds _ _ _ _ hanswer
  have hid := hresolver.leaves source arguments hub id
  rw [hlater] at hid
  have hreported := Channel.flag?_of_handle hhandle
  constructor
  · intro hgone
    have htaken : later.flag? = some true := by
      simp [hreported, Channel.isTaken, hgone later hlater]
    generalize hub.channels[id]? = earlier? at hid
    cases hid with
    | opened hflag => exact absurd htaken hflag
    | kept hflag =>
      rcases hflag with hnone | hsame
      · simp [htaken] at hnone
      · exact ⟨_, rfl, hsame ▸ htaken⟩
  · rintro ⟨earlier, hearlier, hflag⟩ c hc
    obtain rfl := Option.some.inj (hlater.symm.trans hc)
    rw [hearlier] at hid
    obtain - | - | ⟨-, hstill⟩ := hid
    have htaken := hstill (Channel.isTaken_of_flag? hflag)
    simpa [Channel.isTaken] using htaken

/-- **A stream is too late to be had exactly if it was taken before.** -/
theorem streamAlreadyTaken_iff (hexecutor : executor.TakesNoStream)
    (h : Subscribes executor source field given hub result after.channels) :
    (∃ name, result = .error (.streamAlreadyTaken name)) ↔
      ∃ id, executor.AnswersStream source field given hub id ∧
        ∃ c, hub.channels[id]? = some c ∧ c.flag? = some true := by
  generalize after.channels = channels at h
  -- There is one resolver and one list of arguments, hence one answer.
  have hsame : ∀ {resolver arguments answer}, executor.Calls field given resolver arguments →
      (resolver source arguments hub).1 = answer →
      ∀ id, executor.AnswersStream source field given hub id → answer = .ok (.stream id) := by
    rintro resolver arguments answer hcalls rfl id ⟨other, otherArguments, hother, hanswer⟩
    obtain rfl := Option.some.inj (hcalls.lookup.symm.trans hother.lookup)
    obtain rfl := Except.ok.inj (hcalls.build.symm.trans hother.build)
    exact hanswer
  constructor
  · rintro ⟨name, rfl⟩
    cases h with
    | late hcalls hanswer hgone =>
      exact ⟨_, ⟨_, _, hcalls, hanswer⟩,
        (gone_iff (hexecutor _ _ hcalls.lookup) hanswer).1 hgone⟩
  · rintro ⟨id, hasked, htaken⟩
    cases h with
    | late => exact ⟨_, rfl⟩
    | unresolved hlookup =>
      obtain ⟨resolver, arguments, hcalls, -⟩ := hasked
      simp [hcalls.lookup] at hlookup
    | misargued hbuild =>
      obtain ⟨resolver, arguments, hcalls, -⟩ := hasked
      simp [hcalls.build] at hbuild
    | failed hcalls hanswer => cases hsame hcalls hanswer id hasked
    | streamless hcalls hanswer hshape =>
      cases hsame hcalls hanswer id hasked
      cases hshape
    | started hcalls hanswer hc hheld =>
      cases hsame hcalls hanswer id hasked
      exact absurd hheld
        ((gone_iff (hexecutor _ _ hcalls.lookup) hanswer).2 htaken _ hc)

end Subscribes

/-! ### Source texts -/

section Text

variable {executor : Executor} {text : String} {given : Variables} {host : Host}

/-- What is wrong with a text is noted before anything else is done. -/
theorem noteErrors_eq (parsed : Parsed) (text : String) (host : Host) :
    ∃ noted : Host, noteErrors parsed text host = (.ok (), noted) ∧ noted.hub = host.hub := by
  unfold noteErrors
  split
  · exact ⟨_, rfl, rfl⟩
  · exact ⟨host, rfl, rfl⟩

/-- A document that names no field to subscribe to. -/
theorem subscribeText_of_error (executor : Executor) {error : ExecutionError}
    (h : subscriptionField (Parsed.ofText text).document = .error error) (given : Variables)
    (host : Host) :
    (executor.subscribeText text given host).1 = .error error
      ∧ (executor.subscribeText text given host).2.hub = host.hub := by
  obtain ⟨noted, hnote, hhub⟩ := noteErrors_eq (Parsed.ofText text) text host
  have hrun : executor.subscribeText text given host = _ := Execution.bind_of_ok hnote _
  rw [h] at hrun
  rw [hrun]
  exact ⟨rfl, hhub⟩

/-- A document that names one. -/
theorem subscribeText_of_ok {field : Field}
    (h : subscriptionField (Parsed.ofText text).document = .ok field) :
    Subscribes executor none field given host.hub (executor.subscribeText text given host).1
      (executor.subscribeText text given host).2.hub.channels := by
  obtain ⟨noted, hnote, hhub⟩ := noteErrors_eq (Parsed.ofText text) text host
  have hrun : executor.subscribeText text given host = _ := Execution.bind_of_ok hnote _
  rw [h] at hrun
  rw [hrun, ← hhub]
  exact subscribes executor none field given noted

/-- No document is refused for a stream that was taken. -/
theorem subscriptionField_ne_taken (document : Document) (name : String) :
    subscriptionField document ≠ .error (.streamAlreadyTaken name) := by
  unfold subscriptionField
  split
  · simp
  · simp
  · split
    · simp
    · split <;> simp

end Text

end Executor

end GraphQuery
