import GraphQuery.Event.Channel

/-! # Chronicles

All that is done with a channel, step by step and with the replies, is its **chronicle**; who acts
in which step does not matter. A chronicle tells where the stream is and whether the subscription
has ended: that it was cancelled, or that the stream was dropped, be it by its consumer or with the
last handle of its source (`Lives.tells`). What is announced to the senders and whether the
receiving end is closed never differ.

Sends that wait for a slot are part of the picture. They leave the stream alone. -/

namespace GraphQuery.Channel

/-! ## Deeds -/

/-- **What can be done** with a channel by those who hold a sender, a handle of its source or its
stream. No send waits here for a slot. -/
inductive Action where
  /-- A sender sends an event without waiting. -/
  | trySend (event : Value)
  /-- A sender is cloned. -/
  | cloneSender
  /-- A sender is dropped. -/
  | dropSender
  /-- A handle of the source is cloned. -/
  | cloneSource
  /-- A handle of the source is dropped. -/
  | dropSource
  /-- The stream is taken out of a handle of the source. -/
  | take
  /-- The stream is read. -/
  | read
  /-- The subscription is cancelled by way of its stream. -/
  | cancel
  /-- The stream is dropped. -/
  | dropStream

/-- **What is answered** to an action. -/
inductive Answer where
  /-- Whether an event was accepted. -/
  | sent (result : Except SendFault Unit)
  /-- Whether there was a stream to take. -/
  | took (taken : Bool)
  /-- What was read. -/
  | received (received : Received)
  /-- Nothing to tell. -/
  | done

namespace Action

/-- Whether an action is possible: someone holds what it takes. -/
def Possible (c : Channel) : Action → Prop
  | trySend _ | cloneSender | dropSender => 0 < c.senders
  | cloneSource | dropSource | take => 0 < c.sources
  | read | cancel | dropStream => c.stream = .taken

/-- What an action adds to the number of senders. -/
def senderChange : Action → Int
  | cloneSender => 1
  | dropSender => -1
  | _ => 0

end Action

/-- **Acts on a channel.** -/
def act (c : Channel) : Action → Answer × Channel
  | .trySend event => (.sent (c.trySend event).1, (c.trySend event).2)
  | .cloneSender => (.done, c.cloneSender)
  | .dropSender => (.done, c.dropSender)
  | .cloneSource => (.done, c.cloneSource)
  | .dropSource => (.done, c.dropSource)
  | .take => (.took c.take.1, c.take.2)
  | .read => (.received c.receive.1, c.receive.2)
  | .cancel => (.done, c.cancel)
  | .dropStream => (.done, c.dropStream)

/-- **Whatever can be done** with a channel. -/
inductive Deed where
  /-- An action that does not wait. -/
  | act (action : Action)
  /-- A sender starts a send that waits if it has to. -/
  | startSend (task : Nat) (event : Value)
  /-- A send that waits goes on. -/
  | pollSend (task : Nat)
  /-- A send that waits is given up. -/
  | dropSend (task : Nat)

/-- **What is replied** to a deed. -/
inductive Reply where
  /-- The answer to an action. -/
  | answer (answer : Answer)
  /-- How far a send has come; nothing if there is no such send. -/
  | progress (progress : Option SendProgress)

namespace Deed

/-- Whether a deed is possible: someone holds what it takes. -/
def Possible (c : Channel) : Deed → Prop
  | act action => action.Possible c
  | startSend _ _ => 0 < c.senders
  | pollSend _ | dropSend _ => True

/-- What a deed adds to the number of handles of the source. -/
def sourceChange : Deed → Int
  | act .cloneSource => 1
  | act .dropSource => -1
  | _ => 0

end Deed

/-- **Does something** with a channel. -/
def perform (c : Channel) : Deed → Reply × Channel
  | .act action => (.answer (c.act action).1, (c.act action).2)
  | .startSend task event =>
    (.progress (some (c.startSend task event).1), (c.startSend task event).2)
  | .pollSend task =>
    (.progress ((c.pollSend? task).map Prod.fst), ((c.pollSend? task).map Prod.snd).getD c)
  | .dropSend task => (.answer .done, (c.dropSend? task).getD c)

/-- **A chronicle**: all that was done with a channel and replied, in the order of time. -/
abbrev Chronicle := List (Deed × Reply)

namespace Chronicle

/-- Whether a step is the consumer's cancellation. -/
def cancels : Deed × Reply → Bool
  | (.act .cancel, _) => true
  | _ => false

/-- Whether a step drops the stream that was taken. -/
def dropsStream : Deed × Reply → Bool
  | (.act .dropStream, _) => true
  | _ => false

/-- Whether a step takes the stream out of its source. -/
def takes : Deed × Reply → Bool
  | (.act .take, .answer (.took true)) => true
  | _ => false

/-- Whether a step is a read that finds the stream closed. -/
def findsClosed : Deed × Reply → Bool
  | (.act .read, .answer (.received .closed)) => true
  | _ => false

/-- Whether a chronicle tells of a step of some kind. -/
def TellsOf (kind : Deed × Reply → Bool) (chronicle : Chronicle) : Prop :=
  ∃ step ∈ chronicle, kind step

/-- The number of handles of the source left: the first one and its clones, without those
dropped. -/
def sourcesLeft (chronicle : Chronicle) : Int :=
  chronicle.foldl (fun sources step => sources + step.1.sourceChange) 1

/-- **The stream was dropped**: by its consumer, or with the last handle of its source before anyone
had taken it. -/
def HasDropped (chronicle : Chronicle) : Prop :=
  TellsOf dropsStream chronicle ∨ (sourcesLeft chronicle = 0 ∧ ¬ TellsOf takes chronicle)

/-- **The subscription has ended**: it was cancelled, or its stream was dropped. -/
def HasEnded (chronicle : Chronicle) : Prop := TellsOf cancels chronicle ∨ HasDropped chronicle

/-- A chronicle goes on with one more step. -/
theorem tellsOf_concat (kind : Deed × Reply → Bool) (chronicle : Chronicle)
    (step : Deed × Reply) :
    TellsOf kind (chronicle ++ [step]) ↔ TellsOf kind chronicle ∨ kind step := by
  simp only [TellsOf, List.mem_append, List.mem_singleton]
  constructor
  · rintro ⟨other, hmem | rfl, hkind⟩
    · exact .inl ⟨other, hmem, hkind⟩
    · exact .inr hkind
  · rintro (⟨other, hmem, hkind⟩ | hkind)
    · exact ⟨other, .inl hmem, hkind⟩
    · exact ⟨step, .inr rfl, hkind⟩

theorem sourcesLeft_concat (chronicle : Chronicle) (step : Deed × Reply) :
    sourcesLeft (chronicle ++ [step]) = sourcesLeft chronicle + step.1.sourceChange := by
  rw [sourcesLeft, List.foldl_append]
  rfl

end Chronicle

/-- **The chronicles of a channel** that was opened with some capacity, each with the channel that
it leads to. -/
inductive Lives (capacity : Nat) : Chronicle → Channel → Prop where
  /-- The channel is opened. -/
  | opened : Lives capacity [] (fresh capacity)
  /-- Something possible is done. -/
  | perform {chronicle : Chronicle} {c : Channel} (before : Lives capacity chronicle c)
    (deed : Deed) (possible : deed.Possible c) :
    Lives capacity (chronicle ++ [(deed, (c.perform deed).1)]) (c.perform deed).2

/-! ## What sending and reading leave alone -/

section Frame

variable (c : Channel)

theorem settle_buffer : c.settle.buffer = c.buffer := by
  unfold settle
  split <;> rfl

/-- Who holds the stream and its source, and whether the channel still takes events. -/
def standing : Nat × StreamPlace × Bool × Bool := (c.sources, c.stream, c.cancelled, c.closed)

theorem standing_settle : c.settle.standing = c.standing := by
  unfold settle
  split <;> rfl

theorem standing_trySend (event : Value) : (c.trySend event).2.standing = c.standing := by
  unfold trySend
  split
  · rfl
  · split
    · rfl
    · split <;> rfl

theorem standing_startSend (task : Nat) (event : Value) :
    (c.startSend task event).2.standing = c.standing := by
  unfold startSend
  split
  · rfl
  · split <;> rfl

theorem standing_receive : c.receive.2.standing = c.standing := by
  unfold receive
  split
  · exact standing_settle _
  · split <;> rfl

theorem standing_forget (task : Nat) : (c.forget task).standing = c.standing := standing_settle _

theorem standing_pollSend (task : Nat) :
    (((c.pollSend? task).map Prod.snd).getD c).standing = c.standing := by
  unfold pollSend?
  cases c.pendingSend? task with
  | none => rfl
  | some send =>
    show (if c.isCancelled = true then _ else _ : SendProgress × Channel).2.standing = _
    split
    · exact c.standing_forget task
    · split <;> rfl

theorem standing_dropSend? (task : Nat) : ((c.dropSend? task).getD c).standing = c.standing := by
  unfold dropSend?
  cases c.pendingSend? task with
  | none => rfl
  | some send => exact c.standing_forget task

/-- Whether a deed is about the stream and who can have it. -/
def Deed.concernsStream : Deed → Bool
  | act .cloneSource | act .dropSource | act .take | act .cancel | act .dropStream => true
  | _ => false

/-- What is not about the stream leaves no trace of it in a chronicle. -/
theorem Deed.not_concernsStream {deed : Deed} (h : deed.concernsStream = false) (reply : Reply) :
    deed.sourceChange = 0 ∧ Chronicle.cancels (deed, reply) = false
      ∧ Chronicle.dropsStream (deed, reply) = false ∧ Chronicle.takes (deed, reply) = false := by
  cases deed with
  | act action =>
    cases action with
    | trySend | cloneSender | dropSender | read => exact ⟨rfl, rfl, rfl, rfl⟩
    | cloneSource | dropSource | take | cancel | dropStream => exact absurd h (by decide)
  | startSend | pollSend | dropSend => exact ⟨rfl, rfl, rfl, rfl⟩

/-- **Sending and reading change nothing about the stream** and who can have it. -/
theorem standing_perform {deed : Deed} (h : deed.concernsStream = false) :
    (c.perform deed).2.standing = c.standing := by
  cases deed with
  | act action =>
    cases action with
    | trySend event => exact c.standing_trySend event
    | cloneSender | dropSender => rfl
    | read => exact c.standing_receive
    | cloneSource | dropSource | take | cancel | dropStream => exact absurd h (by decide)
  | startSend task event => exact c.standing_startSend task event
  | pollSend task => exact c.standing_pollSend task
  | dropSend task => exact c.standing_dropSend? task

end Frame

/-! ## The end of a subscription -/

/-- **What a step can do** to the stream, and to who can have it. -/
structure Turn (c : Channel) (step : Deed × Reply) (after : Channel) : Prop where
  /-- Handles of the source come and go as the step says. -/
  sources_eq : (after.sources : Int) = c.sources + step.1.sourceChange
  /-- A handle is cloned from another one. -/
  sources_eq_zero : c.sources = 0 → after.sources = 0
  /-- The stream is taken through a handle. -/
  sources_ne_zero : Chronicle.takes step → after.sources ≠ 0
  /-- The stream leaves its source when it is taken and when the last handle is dropped. -/
  held_iff : after.stream = .held
    ↔ c.stream = .held ∧ ¬ Chronicle.takes step ∧ after.sources ≠ 0
  /-- The stream is dropped by its consumer, or goes with the last handle of its source. -/
  dropped_iff : after.stream = .dropped ↔ c.stream = .dropped ∨ Chronicle.dropsStream step
    ∨ (c.stream = .held ∧ after.sources = 0)
  /-- The subscription is cancelled by its consumer, or with the stream that is dropped. -/
  cancelled_iff : after.cancelled = true ↔ c.cancelled = true ∨ Chronicle.cancels step
    ∨ Chronicle.dropsStream step ∨ (c.stream = .held ∧ after.sources = 0)
  /-- The receiving end is closed along with the cancellation. -/
  closed_eq : c.closed = c.cancelled → after.closed = after.cancelled

namespace Turn

variable {c : Channel} {deed : Deed}

/-- A step that is not about the stream. -/
theorem of_standing {after : Channel} (held : c.stream = .held → c.sources ≠ 0)
    (hdeed : deed.concernsStream = false) (hstanding : after.standing = c.standing)
    (reply : Reply) : Turn c (deed, reply) after := by
  obtain ⟨hsources, hstream, hcancelled, hclosed⟩ : after.sources = c.sources
      ∧ after.stream = c.stream ∧ after.cancelled = c.cancelled ∧ after.closed = c.closed := by
    simpa [standing] using hstanding
  obtain ⟨hchange, hcancels, hdrops, htakes⟩ := Deed.not_concernsStream hdeed reply
  have hkept : ¬ (c.stream = .held ∧ c.sources = 0) := fun h => held h.1 h.2
  exact {
    sources_eq := by rw [hsources, hchange, Int.add_zero]
    sources_eq_zero := hsources.trans
    sources_ne_zero := by simp [htakes]
    held_iff := by simpa [hstream, hsources, htakes] using held
    dropped_iff := by simp [hstream, hsources, hdrops, hkept]
    cancelled_iff := by simp [hcancelled, hsources, hcancels, hdrops, hkept]
    closed_eq := by simp [hcancelled, hclosed] }

/-- A handle of the source is dropped. -/
theorem dropSource (possible : 0 < c.sources) :
    Turn c (.act .dropSource, .answer .done) c.dropSource := by
  have hfewer : ((c.sources - 1 : Nat) : Int) = c.sources + -1 := by omega
  unfold Channel.dropSource
  dsimp only
  split
  · next hlast =>
    -- The stream goes with the last handle, and the subscription with the stream.
    exact {
      sources_eq := hfewer
      sources_eq_zero := fun _ => hlast.1
      sources_ne_zero := by simp [Chronicle.takes]
      held_iff := by simp [dropStream, hlast.1]
      dropped_iff := by simp [dropStream, hlast]
      cancelled_iff := by simp [dropStream, hlast]
      closed_eq := fun _ => rfl }
  · next hkept =>
    have hnot : ¬ (c.stream = .held ∧ c.sources - 1 = 0) := fun h => hkept h.symm
    exact {
      sources_eq := hfewer
      sources_eq_zero := fun h => by simp [h]
      sources_ne_zero := by simp [Chronicle.takes]
      held_iff := by simpa [Chronicle.takes] using fun hheld hzero => hkept ⟨hzero, hheld⟩
      dropped_iff := by simp [Chronicle.dropsStream, hnot]
      cancelled_iff := by simp [Chronicle.cancels, Chronicle.dropsStream, hnot]
      closed_eq := id }

/-- The stream is asked for through a handle of its source. -/
theorem take (possible : 0 < c.sources) :
    Turn c (.act .take, .answer (.took c.take.1)) c.take.2 := by
  have hhandle : c.sources ≠ 0 := Nat.ne_of_gt possible
  unfold Channel.take
  split
  · next hheld =>
    exact {
      sources_eq := (Int.add_zero _).symm
      sources_eq_zero := id
      sources_ne_zero := fun _ => hhandle
      held_iff := by simp [Chronicle.takes]
      dropped_iff := by simp [hheld, Chronicle.dropsStream, hhandle]
      cancelled_iff := by simp [Chronicle.cancels, Chronicle.dropsStream, hhandle]
      closed_eq := id }
  · next hgone =>
    exact {
      sources_eq := (Int.add_zero _).symm
      sources_eq_zero := id
      sources_ne_zero := by simp [Chronicle.takes]
      held_iff := by simp [hgone]
      dropped_iff := by simp [Chronicle.dropsStream, hgone]
      cancelled_iff := by simp [Chronicle.cancels, Chronicle.dropsStream, hgone]
      closed_eq := id }

/-- **A step does what a step can do.** -/
theorem perform (held : c.stream = .held → c.sources ≠ 0) (possible : deed.Possible c) :
    Turn c (deed, (c.perform deed).1) (c.perform deed).2 := by
  -- What does not concern the stream leaves its standing alone; the rest is settled one by one.
  by_cases hdeed : deed.concernsStream = false
  · exact of_standing held hdeed (c.standing_perform hdeed) _
  · cases deed with
    | startSend | pollSend | dropSend => exact absurd rfl hdeed
    | act action =>
      cases action with
      | trySend | cloneSender | dropSender | read => exact absurd rfl hdeed
      | dropSource => exact dropSource possible
      | take => exact take possible
      | cloneSource =>
        have hhandle : c.sources ≠ 0 := Nat.ne_of_gt possible
        exact {
          sources_eq := Int.natCast_succ c.sources
          sources_eq_zero := fun h => absurd h hhandle
          sources_ne_zero := by simp [Chronicle.takes]
          held_iff := by simp [Channel.perform, act, cloneSource, Chronicle.takes]
          dropped_iff := by simp [Channel.perform, act, cloneSource, Chronicle.dropsStream]
          cancelled_iff := by
            simp [Channel.perform, act, cloneSource, Chronicle.cancels, Chronicle.dropsStream]
          closed_eq := id }
      | cancel =>
        have htaken : c.stream = .taken := possible
        exact {
          sources_eq := (Int.add_zero _).symm
          sources_eq_zero := id
          sources_ne_zero := by simp [Chronicle.takes]
          held_iff := by simp [Channel.perform, act, cancel, htaken]
          dropped_iff := by simp [Channel.perform, act, cancel, Chronicle.dropsStream, htaken]
          cancelled_iff := by simp [Channel.perform, act, cancel, Chronicle.cancels]
          closed_eq := fun _ => rfl }
      | dropStream =>
        have htaken : c.stream = .taken := possible
        exact {
          sources_eq := (Int.add_zero _).symm
          sources_eq_zero := id
          sources_ne_zero := by simp [Chronicle.takes]
          held_iff := by simp [Channel.perform, act, dropStream, htaken]
          dropped_iff := by simp [Channel.perform, act, dropStream, Chronicle.dropsStream]
          cancelled_iff := by simp [Channel.perform, act, dropStream, Chronicle.dropsStream]
          closed_eq := fun _ => rfl }

end Turn

/-- **What a chronicle says** about the stream of its channel. -/
structure Tells (chronicle : Chronicle) (c : Channel) : Prop where
  /-- The channel knows how many handles of the source are left. -/
  sources_eq : (c.sources : Int) = chronicle.sourcesLeft
  /-- The stream is in its source until it is taken or goes with the last handle. -/
  held_iff : c.stream = .held ↔ ¬ Chronicle.TellsOf Chronicle.takes chronicle ∧ c.sources ≠ 0
  /-- The stream is dropped if the chronicle says so. -/
  dropped_iff : c.stream = .dropped ↔ chronicle.HasDropped
  /-- The cancellation is announced when the subscription ends. -/
  cancelled_iff : c.cancelled = true ↔ chronicle.HasEnded
  /-- The receiving end is closed at the same time. -/
  closed_eq : c.closed = c.cancelled

namespace Tells

variable {chronicle : Chronicle} {c after : Channel} {step : Deed × Reply}

/-- A channel that was just opened. -/
theorem opened (capacity : Nat) : Tells [] (fresh capacity) where
  sources_eq := rfl
  held_iff := by simp [fresh, Chronicle.TellsOf]
  dropped_iff := by simp [fresh, Chronicle.HasDropped, Chronicle.sourcesLeft, Chronicle.TellsOf]
  cancelled_iff := by
    simp [fresh, Chronicle.HasEnded, Chronicle.HasDropped, Chronicle.sourcesLeft,
      Chronicle.TellsOf]
  closed_eq := rfl

/-- The stream was dropped before, or it is dropped in this step. -/
theorem hasDropped_concat (h : Tells chronicle c) (hturn : Turn c step after) :
    (chronicle ++ [step]).HasDropped ↔ chronicle.HasDropped ∨ Chronicle.dropsStream step
      ∨ (c.stream = .held ∧ after.sources = 0) := by
  have hleft : Chronicle.sourcesLeft (chronicle ++ [step]) = 0 ↔ after.sources = 0 := by
    rw [Chronicle.sourcesLeft_concat, ← h.sources_eq, ← hturn.sources_eq]
    exact Int.natCast_eq_zero
  have hbefore : Chronicle.sourcesLeft chronicle = 0 ↔ c.sources = 0 := by
    rw [← h.sources_eq]
    exact Int.natCast_eq_zero
  -- Without handles a stream that was never taken is gone: it went before, or it goes with this
  -- step.
  have hgone : after.sources = 0
        ∧ ¬ (Chronicle.TellsOf Chronicle.takes chronicle ∨ Chronicle.takes step)
      ↔ (c.sources = 0 ∧ ¬ Chronicle.TellsOf Chronicle.takes chronicle)
        ∨ (c.stream = .held ∧ after.sources = 0) := by
    rw [h.held_iff]
    constructor
    · rintro ⟨hzero, hnot⟩
      have huntaken := (not_or.1 hnot).1
      by_cases hnone : c.sources = 0
      · exact .inl ⟨hnone, huntaken⟩
      · exact .inr ⟨⟨huntaken, hnone⟩, hzero⟩
    · rintro (⟨hzero, huntaken⟩ | ⟨⟨huntaken, -⟩, hzero⟩)
      · have hnone := hturn.sources_eq_zero hzero
        exact ⟨hnone, not_or.2 ⟨huntaken, fun hstep => hturn.sources_ne_zero hstep hnone⟩⟩
      · exact ⟨hzero, not_or.2 ⟨huntaken, fun hstep => hturn.sources_ne_zero hstep hzero⟩⟩
  rw [Chronicle.HasDropped, Chronicle.HasDropped, hleft, hbefore, Chronicle.tellsOf_concat,
    Chronicle.tellsOf_concat, hgone]
  simp only [or_assoc, or_left_comm]

/-- **A step tells of itself.** -/
theorem turn (h : Tells chronicle c) (hturn : Turn c step after) :
    Tells (chronicle ++ [step]) after where
  sources_eq := by rw [Chronicle.sourcesLeft_concat, ← h.sources_eq, hturn.sources_eq]
  held_iff := by
    rw [hturn.held_iff, h.held_iff, Chronicle.tellsOf_concat, not_or]
    constructor
    · rintro ⟨⟨huntaken, -⟩, hstep, hleft⟩
      exact ⟨⟨huntaken, hstep⟩, hleft⟩
    · rintro ⟨⟨huntaken, hstep⟩, hleft⟩
      exact ⟨⟨huntaken, fun hzero => hleft (hturn.sources_eq_zero hzero)⟩, hstep, hleft⟩
  dropped_iff := by rw [hturn.dropped_iff, h.dropped_iff, h.hasDropped_concat hturn]
  cancelled_iff := by
    rw [hturn.cancelled_iff, h.cancelled_iff, Chronicle.HasEnded, Chronicle.HasEnded,
      Chronicle.tellsOf_concat, h.hasDropped_concat hturn]
    simp only [or_assoc, or_left_comm]
  closed_eq := hturn.closed_eq h.closed_eq

end Tells

/-- **Every chronicle tells the truth** about the stream. -/
theorem Lives.tells {capacity : Nat} {chronicle : Chronicle} {c : Channel}
    (h : Lives capacity chronicle c) : Tells chronicle c := by
  induction h with
  | opened => exact .opened capacity
  | perform before deed possible ih =>
    exact ih.turn (.perform (fun hheld => (ih.held_iff.1 hheld).2) possible)

end GraphQuery.Channel
