import GraphQuery.Proofs.Chronicles

/-! # Delivery

What is done with a channel without any send that waits is its **history**. Histories are the
chronicles of such deeds (`runs_iff_lives`), and so they tell whether the subscription has ended and
whether the stream was dropped. Whatever the order of steps, an event that a channel accepts is
delivered once and in its turn, unless the stream is dropped before (`Runs.delivers`).

The invariant behind it (`Accounts`) says what the channel owes to its history: the events accepted
and not delivered yet are buffered, and how many can still send any can be read off the history. -/

namespace GraphQuery.Channel

/-! ## Histories -/

/-- **A history**: actions and the answers to them, in the order of time. -/
abbrev History := List (Action × Answer)

namespace History

/-- The event that a step brings into the channel. -/
def accepted? : Action × Answer → Option Value
  | (.trySend event, .sent (.ok _)) => some event
  | _ => none

/-- The event that a step brings out of the channel. -/
def delivered? : Action × Answer → Option Value
  | (.read, .received (.event event)) => some event
  | _ => none

/-- **The events accepted**, in the order of time. -/
def accepted (history : History) : List Value := history.filterMap accepted?

/-- **The events delivered**, in the order of time. -/
def delivered (history : History) : List Value := history.filterMap delivered?

/-- Whether the subscription was cancelled by way of its stream. -/
def IsCancelled (history : History) : Prop := ∃ answer, (.cancel, answer) ∈ history

/-- The number of senders left: the first one and its clones, without those dropped. -/
def sendersLeft (history : History) : Int :=
  history.foldl (fun senders step => senders + step.1.senderChange) 1

end History

/-- **The histories of a channel** that was opened with some capacity, each with the channel that
it leads to. -/
inductive Runs (capacity : Nat) : History → Channel → Prop where
  /-- The channel is opened. -/
  | opened : Runs capacity [] (fresh capacity)
  /-- Something possible is done. -/
  | act {history : History} {c : Channel} (before : Runs capacity history c) (action : Action)
    (possible : action.Possible c) :
    Runs capacity (history ++ [(action, (c.act action).1)]) (c.act action).2

/-! ## Histories among the chronicles -/

/-- A history as a chronicle. -/
def History.chronicle (history : History) : Chronicle :=
  history.map fun step => (.act step.1, .answer step.2)

/-- A history goes on with one more step. -/
theorem History.chronicle_concat (history : History) (action : Action) (answer : Answer) :
    chronicle (history ++ [(action, answer)])
      = chronicle history ++ [(.act action, .answer answer)] :=
  List.map_append

/-- A history tells of a cancellation as its chronicle does. -/
theorem History.tellsOf_cancels_iff (history : History) :
    history.chronicle.TellsOf Chronicle.cancels ↔ history.IsCancelled := by
  constructor
  · rintro ⟨step, hmem, hcancels⟩
    obtain ⟨⟨action, answer⟩, hstep, rfl⟩ := List.mem_map.1 hmem
    cases action with
    | cancel => exact ⟨answer, hstep⟩
    | _ => cases hcancels
  · rintro ⟨answer, hmem⟩
    exact ⟨(.act .cancel, .answer answer), List.mem_map_of_mem hmem, rfl⟩

/-- **A history is a chronicle** of the same channel. -/
theorem Runs.lives {capacity : Nat} {history : History} {c : Channel}
    (h : Runs capacity history c) : Lives capacity history.chronicle c := by
  induction h with
  | opened => exact .opened
  | @act history c before action possible ih =>
    rw [History.chronicle_concat]
    exact ih.perform (.act action) possible

/-- **A chronicle without sends that wait is a history.** -/
theorem Lives.runs {capacity : Nat} {history : History} {c : Channel}
    (h : Lives capacity history.chronicle c) : Runs capacity history c := by
  generalize hchronicle : history.chronicle = chronicle at h
  induction h generalizing history with
  | opened =>
    obtain rfl := List.map_eq_nil_iff.1 hchronicle
    exact .opened
  | @perform chronicle c before deed possible ih =>
    -- The last step of the chronicle is the last one of the history.
    obtain ⟨past, last, rfl, hpast, hlast⟩ := List.map_eq_append_iff.1 hchronicle
    obtain ⟨⟨action, answer⟩, rfl, hstep⟩ := List.map_eq_singleton_iff.1 hlast
    rw [Prod.mk.injEq] at hstep
    obtain ⟨rfl, hreply⟩ := hstep
    obtain rfl : answer = (c.act action).1 := Reply.answer.inj hreply
    exact (ih hpast).act action possible

/-- **The histories of a channel** are its chronicles of deeds that do not wait. -/
theorem runs_iff_lives {capacity : Nat} {history : History} {c : Channel} :
    Runs capacity history c ↔ Lives capacity history.chronicle c :=
  ⟨Runs.lives, Lives.runs⟩

/-! ## What a step can do -/

/-- **What a step can do** to a channel where no send waits: an action, the answer to it, and the
channel afterwards. -/
inductive Step (c : Channel) : Action → Answer → Channel → Prop where
  /-- Nothing is accepted after the cancellation. -/
  | refusedCancelled {event : Value} (cancelled : c.cancelled = true) :
    Step c (.trySend event) (.sent (.error .cancelled)) c
  /-- Nothing is accepted while every slot is occupied. -/
  | refusedFull {event : Value} (uncancelled : c.cancelled = false)
    (full : c.capacity ≤ c.buffer.length) : Step c (.trySend event) (.sent (.error .full)) c
  /-- An event is accepted. -/
  | accepted {event : Value} (uncancelled : c.cancelled = false)
    (free : c.buffer.length < c.capacity) :
    Step c (.trySend event) (.sent (.ok ())) { c with buffer := c.buffer ++ [event] }
  /-- There is one more sender. -/
  | cloneSender : Step c .cloneSender .done { c with senders := c.senders + 1 }
  /-- There is one sender less. -/
  | dropSender : Step c .dropSender .done { c with senders := c.senders - 1 }
  /-- There is one more handle of the source. -/
  | cloneSource : Step c .cloneSource .done { c with sources := c.sources + 1 }
  /-- There is one handle of the source less. -/
  | dropSource (kept : ¬ (c.sources - 1 = 0 ∧ c.stream = .held)) :
    Step c .dropSource .done { c with sources := c.sources - 1 }
  /-- The stream goes with the last handle of its source. -/
  | dropHeld (last : c.sources - 1 = 0) (held : c.stream = .held) : Step c .dropSource .done
    { c with
      sources := c.sources - 1
      cancelled := true
      closed := true
      stream := .dropped
      buffer := [] }
  /-- The stream is taken. -/
  | take (held : c.stream = .held) : Step c .take (.took true) { c with stream := .taken }
  /-- There is no stream to take. -/
  | takeNone (gone : c.stream ≠ .held) : Step c .take (.took false) c
  /-- The oldest event is read. -/
  | readEvent {event : Value} {rest : List Value} (buffer : c.buffer = event :: rest) :
    Step c .read (.received (.event event)) { c with buffer := rest }
  /-- Nothing is left, and nothing can come. -/
  | readClosed (buffer : c.buffer = []) (closed : c.cancelled = true ∨ c.senders = 0) :
    Step c .read (.received .closed) c
  /-- Nothing is there, but something can come. -/
  | readPending (buffer : c.buffer = []) (expected : ¬ (c.cancelled = true ∨ c.senders = 0)) :
    Step c .read (.received .pending) c
  /-- The subscription is cancelled. -/
  | cancel : Step c .cancel .done { c with cancelled := true, closed := true }
  /-- The stream is dropped. -/
  | dropStream : Step c .dropStream .done
    { c with cancelled := true, closed := true, stream := .dropped, buffer := [] }

section Quiet

variable {c : Channel}

/-- Where no send waits, a slot that becomes free goes to nobody. -/
theorem settle_of_quiet (h : c.pending = []) : c.settle = c := by
  obtain ⟨capacity, buffer, pending, senders, sources, stream, cancelled, closed⟩ := c
  subst h
  unfold settle
  split <;> rfl

/-- Where no send waits, a slot is free unless an event is in it. -/
theorem trySend_of_quiet (h : c.pending = []) (hclosed : c.closed = c.cancelled)
    (event : Value) :
    c.trySend event
      = if c.cancelled = true then (.error .cancelled, c)
        else if c.capacity ≤ c.buffer.length then (.error .full, c)
        else (.ok (), { c with buffer := c.buffer ++ [event] }) := by
  have hfree : c.free = 0 ↔ c.capacity ≤ c.buffer.length := by
    rw [free, reserved, h]
    exact Nat.sub_eq_zero_iff_le
  simp only [trySend, hfree, push, hclosed]
  split <;> rfl

/-- A read gives the oldest event. -/
theorem receive_of_cons (h : c.pending = []) {event : Value} {rest : List Value}
    (hbuffer : c.buffer = event :: rest) :
    c.receive = (.event event, { c with buffer := rest }) := by
  have hquiet : ({ c with buffer := rest } : Channel).pending = [] := h
  rw [receive, hbuffer]
  simp only [settle_of_quiet hquiet]

/-- Where no send waits, a read without an event tells whether any sender is left that can send
one. -/
theorem receive_of_nil (h : c.pending = []) (hclosed : c.closed = c.cancelled)
    (hbuffer : c.buffer = []) :
    c.receive = (if c.cancelled = true ∨ c.senders = 0 then .closed else .pending, c) := by
  have hend : ((c.closed && c.reserved = 0) || !c.hasSender) = true
      ↔ c.cancelled = true ∨ c.senders = 0 := by
    simp [reserved, hasSender, h, hclosed]
  rw [receive, hbuffer]
  simp only [hend]
  split <;> rfl

/-- **Where no send waits, acting on a channel is one of its steps.** -/
theorem step_act (h : c.pending = []) (hclosed : c.closed = c.cancelled) (action : Action) :
    Step c action (c.act action).1 (c.act action).2 := by
  -- One action after the other, by what the channel tests before it acts.
  cases action with
  | trySend event =>
    show Step c (.trySend event) (.sent (c.trySend event).1) (c.trySend event).2
    rw [trySend_of_quiet h hclosed]
    split
    · next hcancelled => exact .refusedCancelled hcancelled
    · next hopen =>
      have hopen' : c.cancelled = false := Bool.eq_false_iff.2 hopen
      split
      · next hfull => exact .refusedFull hopen' hfull
      · next hfree => exact .accepted hopen' (Nat.not_le.1 hfree)
  | cloneSender => exact .cloneSender
  | dropSender => exact .dropSender
  | cloneSource => exact .cloneSource
  | dropSource =>
    show Step c .dropSource .done c.dropSource
    unfold dropSource
    dsimp only
    split
    · next hlast => exact .dropHeld hlast.1 hlast.2
    · next kept => exact .dropSource kept
  | take =>
    show Step c .take (.took c.take.1) c.take.2
    unfold take
    split
    · next held => exact .take held
    · next gone => exact .takeNone gone
  | read =>
    show Step c .read (.received c.receive.1) c.receive.2
    cases hbuffer : c.buffer with
    | cons event rest =>
      rw [receive_of_cons h hbuffer]
      exact .readEvent hbuffer
    | nil =>
      rw [receive_of_nil h hclosed hbuffer]
      split
      · next hend => exact .readClosed hbuffer hend
      · next hopen => exact .readPending hbuffer hopen
  | cancel => exact .cancel
  | dropStream => exact .dropStream

end Quiet

/-! ## The invariant -/

namespace History

/-- What one more step brings comes last. -/
theorem filterMap_concat (brings : Action × Answer → Option Value) (history : History)
    (step : Action × Answer) :
    (history ++ [step]).filterMap brings = history.filterMap brings ++ (brings step).toList := by
  rw [List.filterMap_append]
  cases h : brings step <;> simp [h]

theorem accepted_concat (history : History) (step : Action × Answer) :
    accepted (history ++ [step]) = accepted history ++ (accepted? step).toList :=
  filterMap_concat accepted? history step

theorem delivered_concat (history : History) (step : Action × Answer) :
    delivered (history ++ [step]) = delivered history ++ (delivered? step).toList :=
  filterMap_concat delivered? history step

theorem sendersLeft_concat (history : History) (action : Action) (answer : Answer) :
    sendersLeft (history ++ [(action, answer)]) = sendersLeft history + action.senderChange := by
  rw [sendersLeft, List.foldl_append]
  rfl

end History

/-- **What a channel owes to its history.** -/
structure Accounts (capacity : Nat) (history : History) (c : Channel) : Prop where
  /-- No send waits. -/
  quiet : c.pending = []
  /-- There are as many slots as were asked for, and at least one. -/
  slots : c.capacity = max capacity 1
  /-- No more events are buffered than there are slots. -/
  bounded : c.buffer.length ≤ c.capacity
  /-- As long as the stream is there, what was accepted was delivered or is buffered. -/
  conserves : c.stream ≠ .dropped → history.delivered ++ c.buffer = history.accepted
  /-- The channel knows how many senders are left. -/
  senders_eq : (c.senders : Int) = history.sendersLeft

namespace Accounts

variable {capacity : Nat} {history : History} {c after : Channel} {action : Action}
  {answer : Answer}

/-- A channel that was just opened. -/
theorem opened (capacity : Nat) : Accounts capacity [] (fresh capacity) where
  quiet := rfl
  slots := rfl
  bounded := Nat.zero_le _
  conserves _ := rfl
  senders_eq := rfl

/-- A step keeps the buffer within its bound. -/
theorem bounded_step (h : Accounts capacity history c) (hstep : Step c action answer after) :
    after.buffer.length ≤ after.capacity := by
  have hbounded := h.bounded
  cases hstep with
  | accepted _ free =>
    rw [List.length_append, List.length_singleton]
    exact free
  | readEvent buffer =>
    rw [buffer, List.length_cons] at hbounded
    exact Nat.le_of_succ_le hbounded
  | dropHeld _ _ => exact Nat.zero_le _
  | dropStream => exact Nat.zero_le _
  | _ => exact hbounded

/-- **A step loses nothing and invents nothing**: an event that is accepted goes to the end of the
buffer, and one that is read comes from its head. -/
theorem conserves_step (h : Accounts capacity history c) (hstep : Step c action answer after)
    (hstream : after.stream ≠ .dropped) :
    History.delivered (history ++ [(action, answer)]) ++ after.buffer
      = History.accepted (history ++ [(action, answer)]) := by
  rw [History.accepted_concat, History.delivered_concat]
  -- Only an event that is accepted or read shows in the account.
  cases hstep with
  | @accepted event _ _ =>
    show (history.delivered ++ []) ++ (c.buffer ++ [event]) = history.accepted ++ [event]
    rw [List.append_nil, ← List.append_assoc, h.conserves hstream]
  | @readEvent event rest buffer =>
    have hconserves := h.conserves hstream
    rw [buffer] at hconserves
    show (history.delivered ++ [event]) ++ rest = history.accepted ++ []
    rw [List.append_nil, List.append_assoc, List.singleton_append, hconserves]
  | take held =>
    have hconserves := h.conserves (by rw [held]; simp)
    simpa [History.accepted?, History.delivered?] using hconserves
  | dropHeld _ _ => exact absurd rfl hstream
  | dropStream => exact absurd rfl hstream
  | _ =>
    have hconserves := h.conserves hstream
    simpa [History.accepted?, History.delivered?] using hconserves

/-- A step changes the number of senders as its action says. -/
theorem senders_step (h : Accounts capacity history c) (hpossible : action.Possible c)
    (hstep : Step c action answer after) :
    (after.senders : Int) = History.sendersLeft (history ++ [(action, answer)]) := by
  rw [History.sendersLeft_concat, ← h.senders_eq]
  cases hstep with
  | cloneSender => simp [Action.senderChange]
  | dropSender =>
    -- There is a sender to drop, so that the number does not stop at zero.
    have hpos : 0 < c.senders := hpossible
    simp only [Action.senderChange]
    omega
  | _ => simp [Action.senderChange]

/-- **A step keeps the account.** -/
theorem step (h : Accounts capacity history c) (hpossible : action.Possible c)
    (hstep : Step c action answer after) :
    Accounts capacity (history ++ [(action, answer)]) after where
  quiet := by cases hstep <;> exact h.quiet
  slots := by cases hstep <;> exact h.slots
  bounded := h.bounded_step hstep
  conserves := h.conserves_step hstep
  senders_eq := h.senders_step hpossible hstep

end Accounts

/-- **Every history is accounted for.** -/
theorem Runs.accounts {capacity : Nat} {history : History} {c : Channel}
    (h : Runs capacity history c) : Accounts capacity history c := by
  induction h with
  | opened => exact .opened capacity
  | act before action possible ih =>
    exact ih.step possible (step_act ih.quiet before.lives.tells.closed_eq action)

/-! ## Delivery -/

/-- **What a channel delivers**, and what it answers next, after a history. -/
structure Delivers (capacity : Nat) (history : History) (c : Channel) : Prop where
  /-- Until the stream is dropped, the events read and then those buffered are the events
  accepted, in their order. -/
  conserves : ¬ history.chronicle.HasDropped → history.delivered ++ c.buffer = history.accepted
  /-- No more events are buffered than there are slots, and there is at least one slot. -/
  bounded : c.buffer.length ≤ max capacity 1
  /-- A send fails for a cancellation exactly if there was one, or the stream was dropped. -/
  sendCancelled : ∀ event,
    (c.trySend event).1 = .error .cancelled ↔ history.chronicle.HasEnded
  /-- Otherwise it fails for a full buffer exactly if the buffer is full. -/
  sendFull : ∀ event, (c.trySend event).1 = .error .full
    ↔ ¬ history.chronicle.HasEnded ∧ c.buffer.length = max capacity 1
  /-- Otherwise it succeeds. -/
  sendAccepted : ∀ event, (c.trySend event).1 = .ok ()
    ↔ ¬ history.chronicle.HasEnded ∧ c.buffer.length ≠ max capacity 1
  /-- A send that fails leaves the channel as it was. -/
  sendRefused : ∀ event fault, (c.trySend event).1 = .error fault → (c.trySend event).2 = c
  /-- A read gives the oldest event that is buffered. -/
  readEvent : ∀ event, c.receive.1 = .event event ↔ c.buffer.head? = some event
  /-- A read finds the stream closed exactly if nothing is buffered, and the subscription was
  cancelled or every sender is gone. -/
  readClosed : c.stream = .taken → (c.receive.1 = .closed
    ↔ c.buffer = [] ∧ (history.IsCancelled ∨ history.sendersLeft = 0))

namespace Runs

variable {capacity : Nat} {history : History} {c : Channel}

/-- A send is answered as the history says. -/
theorem trySend_eq (h : Runs capacity history c) (event : Value) :
    (history.chronicle.HasEnded ∧ c.trySend event = (.error .cancelled, c))
      ∨ (¬ history.chronicle.HasEnded ∧ c.buffer.length = max capacity 1
        ∧ c.trySend event = (.error .full, c))
      ∨ (¬ history.chronicle.HasEnded ∧ c.buffer.length ≠ max capacity 1
        ∧ c.trySend event = (.ok (), { c with buffer := c.buffer ++ [event] })) := by
  have hbounded := h.accounts.bounded
  rw [h.accounts.slots] at hbounded
  rw [trySend_of_quiet h.accounts.quiet h.lives.tells.closed_eq, ← h.lives.tells.cancelled_iff,
    h.accounts.slots]
  by_cases hcancelled : c.cancelled = true
  · exact .inl ⟨hcancelled, if_pos hcancelled⟩
  · rw [if_neg hcancelled]
    by_cases hfull : max capacity 1 ≤ c.buffer.length
    · exact .inr (.inl ⟨hcancelled, Nat.le_antisymm hbounded hfull, if_pos hfull⟩)
    · exact .inr (.inr ⟨hcancelled, by omega, if_neg hfull⟩)

/-- Which answer a send gets, and that a refusal changes nothing. -/
theorem trySend_iff (h : Runs capacity history c) (event : Value) :
    ((c.trySend event).1 = .error .cancelled ↔ history.chronicle.HasEnded)
      ∧ ((c.trySend event).1 = .error .full
        ↔ ¬ history.chronicle.HasEnded ∧ c.buffer.length = max capacity 1)
      ∧ ((c.trySend event).1 = .ok ()
        ↔ ¬ history.chronicle.HasEnded ∧ c.buffer.length ≠ max capacity 1)
      ∧ ∀ fault, (c.trySend event).1 = .error fault → (c.trySend event).2 = c := by
  rcases h.trySend_eq event with ⟨hended, hsend⟩ | ⟨hopen, hfull, hsend⟩ | ⟨hopen, hfree, hsend⟩
  · simp [hsend, hended]
  · simp [hsend, hopen, hfull]
  · simp [hsend, hopen, hfree]

/-- A read gives an event exactly if it is the oldest one buffered. -/
theorem receive_event_iff (h : Runs capacity history c) (event : Value) :
    c.receive.1 = .event event ↔ c.buffer.head? = some event := by
  cases hbuffer : c.buffer with
  | nil =>
    rw [receive_of_nil h.accounts.quiet h.lives.tells.closed_eq hbuffer]
    split <;> simp
  | cons oldest rest => simp [receive_of_cons h.accounts.quiet hbuffer]

/-- A read finds the stream closed exactly if the buffer is empty, and the history says that
nothing can come. -/
theorem receive_closed_iff (h : Runs capacity history c) (htaken : c.stream = .taken) :
    c.receive.1 = .closed ↔ c.buffer = [] ∧ (history.IsCancelled ∨ history.sendersLeft = 0) := by
  have hkept : ¬ history.chronicle.HasDropped := by
    rw [← h.lives.tells.dropped_iff, htaken]
    simp
  have hcancelled : c.cancelled = true ↔ history.IsCancelled := by
    rw [h.lives.tells.cancelled_iff, Chronicle.HasEnded, or_iff_left hkept,
      History.tellsOf_cancels_iff]
  have hsenders : c.senders = 0 ↔ history.sendersLeft = 0 := by
    rw [← h.accounts.senders_eq]
    exact Int.natCast_eq_zero.symm
  rw [← hcancelled, ← hsenders]
  cases hbuffer : c.buffer with
  | nil =>
    rw [receive_of_nil h.accounts.quiet h.lives.tells.closed_eq hbuffer]
    split
    · next hend => simp [hend]
    · next hopen => simp [hopen]
  | cons oldest rest => simp [receive_of_cons h.accounts.quiet hbuffer]

/-- **Whatever the order of steps, a channel delivers what it accepts**, each event once and in its
turn, it never holds more than its bound, and each answer is the one that the history calls for. -/
theorem delivers (h : Runs capacity history c) : Delivers capacity history c where
  conserves hkept := h.accounts.conserves fun hdropped =>
    hkept (h.lives.tells.dropped_iff.1 hdropped)
  bounded := by
    rw [← h.accounts.slots]
    exact h.accounts.bounded
  sendCancelled event := (h.trySend_iff event).1
  sendFull event := (h.trySend_iff event).2.1
  sendAccepted event := (h.trySend_iff event).2.2.1
  sendRefused event := (h.trySend_iff event).2.2.2
  readEvent := h.receive_event_iff
  readClosed := h.receive_closed_iff

end Runs

/-- A channel of one slot, which was asked for none: an event is accepted and the next one refused,
and after the cancellation the first one can still be read. -/
theorem delivers_afterCancel :
    Delivers 0
      [(.trySend (.int 1), .sent (.ok ())), (.trySend (.int 2), .sent (.error .full)),
        (.take, .took true), (.cloneSender, .done), (.cancel, .done),
        (.trySend (.int 3), .sent (.error .cancelled)), (.read, .received (.event (.int 1))),
        (.read, .received .closed)]
      ⟨1, [], [], 2, 1, .taken, true, true⟩ := by
  apply Runs.delivers
  have hopened : Runs 0 [] (fresh 0) := .opened
  have hsent := hopened.act (.trySend (.int 1)) Nat.one_pos
  have hrefused := hsent.act (.trySend (.int 2)) Nat.one_pos
  have htaken := hrefused.act .take Nat.one_pos
  have hcloned := htaken.act .cloneSender Nat.one_pos
  have hcancelled := hcloned.act .cancel rfl
  have hlate := hcancelled.act (.trySend (.int 3)) Nat.two_pos
  have hread := hlate.act .read rfl
  exact hread.act .read rfl

end GraphQuery.Channel
