import GraphQuery.Proofs.Chronicles

/-! # Finality

A subscription **ends** when its consumer cancels it or drops the stream, or when the last handle
of its source goes with the stream still in it. It has ended for good: nothing is accepted any more,
whatever is done (`Lives.isFinal`). A read that finds the stream closed is final in the same way,
although other things lead to it, too: the last event may be read, or the last sender be dropped.

Sends that wait for a slot are part of the picture here. The one that was promised a slot keeps the
stream from closing until it runs again, and then it learns of the end like every other. -/

namespace GraphQuery.Channel

/-! ## The end of a subscription -/

/-- What has ended has ended for good. -/
theorem Chronicle.HasEnded.mono {capacity : Nat} {past chronicle : Chronicle} {c : Channel}
    (h : Lives capacity chronicle c) (hpast : past <+: chronicle) (hended : past.HasEnded) :
    chronicle.HasEnded := by
  induction h with
  | opened =>
    rw [List.prefix_nil.1 hpast] at hended
    exact hended
  | @perform chronicle c before deed possible ih =>
    rcases List.prefix_concat_iff.1 hpast with rfl | hearlier
    · exact hended
    · have hturn := Turn.perform (fun hheld => (before.tells.held_iff.1 hheld).2) possible
      rw [← (before.tells.turn hturn).cancelled_iff, hturn.cancelled_iff]
      exact .inl (before.tells.cancelled_iff.2 (ih hearlier))

/-! ## The end of a stream -/

/-- **Nothing is left to read, and nothing can come**: the channel takes nothing and owes nobody a
slot, or there is nobody to send. -/
structure Exhausted (c : Channel) : Prop where
  /-- Nothing is buffered. -/
  buffer_eq : c.buffer = []
  /-- Nothing can come. -/
  none_coming : (c.closed = true ∧ c.reserved = 0) ∨ (c.senders = 0 ∧ c.pending = [])

section Exhausted

variable {c : Channel}

theorem not_hasSender_iff : c.hasSender = false ↔ c.senders = 0 ∧ c.pending = [] := by
  simp [hasSender]

/-- A read finds the stream closed when nothing can be read any more, and not before. -/
theorem receive_closed_iff : c.receive.1 = .closed ↔ c.Exhausted := by
  have hend : ((c.closed && c.reserved = 0) || !c.hasSender) = true
      ↔ (c.closed = true ∧ c.reserved = 0) ∨ (c.senders = 0 ∧ c.pending = []) := by
    simp [← not_hasSender_iff]
  cases hbuffer : c.buffer with
  | cons event rest =>
    have hevent : c.receive.1 = .event event := by rw [receive, hbuffer]
    rw [hevent]
    refine iff_of_false (by simp) fun h => ?_
    simp [h.buffer_eq] at hbuffer
  | nil =>
    have hreceive : c.receive = if (c.closed && c.reserved = 0) || !c.hasSender
        then (.closed, c) else (.pending, c) := by rw [receive, hbuffer]
    rw [hreceive]
    split
    · next hover => exact iff_of_true rfl ⟨hbuffer, hend.1 hover⟩
    · next hopen => exact iff_of_false (by simp) fun h => hopen (hend.2 h.none_coming)

/-- Such a read changes nothing. -/
theorem Exhausted.receive (h : c.Exhausted) : c.receive = (.closed, c) := by
  refine Prod.ext (receive_closed_iff.2 h) ?_
  simp only [Channel.receive, h.buffer_eq]
  split <;> rfl

/-- Where the receiving end is closed no slot is promised to anyone. -/
theorem settle_of_closed (h : c.closed = true) : c.settle = c := if_pos (.inl h)

/-- Nor is any event accepted, whether its send would wait or not. -/
theorem refuses_of_closed (h : c.closed = true) :
    c.isCancelled = true ∧ ∀ event, c.trySend event = (.error .cancelled, c) :=
  ⟨by simp [isCancelled, h], fun event => by simp [trySend, h]⟩

/-- A send that goes on or is given up after the cancellation brings nothing. -/
theorem Exhausted.forget (h : c.Exhausted) (hclosed : c.closed = true)
    (hreserved : c.reserved = 0) (task : Nat) : (c.forget task).Exhausted := by
  have hforget : c.forget task
      = { c with pending := c.pending.filter fun send => send.task ≠ task } :=
    settle_of_closed hclosed
  have hfewer : (c.forget task).reserved ≤ c.reserved := by
    rw [hforget]
    exact (List.filter_sublist.filter _).length_le
  have hnone : (c.forget task).reserved = 0 := by omega
  refine ⟨?_, .inl ⟨?_, hnone⟩⟩ <;> rw [hforget]
  · exact h.buffer_eq
  · exact hclosed

/-- What waits to send learns of the cancellation, and where nobody sends nothing waits. -/
theorem Exhausted.of_pending (h : c.Exhausted) {task : Nat} {send : PendingSend}
    (hsend : c.pendingSend? task = some send) :
    c.isCancelled = true ∧ (c.forget task).Exhausted := by
  rcases h.none_coming with ⟨hclosed, hreserved⟩ | ⟨-, hpending⟩
  · exact ⟨(refuses_of_closed hclosed).1, h.forget hclosed hreserved task⟩
  · simp [pendingSend?, hpending] at hsend

/-- Dropping the stream empties the buffer, too. -/
theorem Exhausted.dropStream (h : c.Exhausted) : c.dropStream.Exhausted :=
  ⟨rfl, h.none_coming.imp_left fun hover => ⟨rfl, hover.2⟩⟩

/-- **What is exhausted stays exhausted**, whatever is done. -/
theorem Exhausted.perform (h : c.Exhausted) {deed : Deed} (possible : deed.Possible c) :
    (c.perform deed).2.Exhausted := by
  -- Who still has a sender has it after the cancellation.
  have hclosed : 0 < c.senders → c.closed = true ∧ c.reserved = 0 := fun hpos =>
    h.none_coming.resolve_right fun hnone => absurd hnone.1 (Nat.ne_of_gt hpos)
  cases deed with
  | startSend task event =>
    show (c.startSend task event).2.Exhausted
    rw [startSend, if_pos (refuses_of_closed (hclosed possible).1).1]
    exact h
  | pollSend task =>
    show (((c.pollSend? task).map Prod.snd).getD c).Exhausted
    rw [pollSend?]
    cases hsend : c.pendingSend? task with
    | none => exact h
    | some send =>
      obtain ⟨hover, hforget⟩ := h.of_pending hsend
      simpa [hover] using hforget
  | dropSend task =>
    show ((c.dropSend? task).getD c).Exhausted
    rw [dropSend?]
    cases hsend : c.pendingSend? task with
    | none => exact h
    | some send => exact (h.of_pending hsend).2
  | act action =>
    cases action with
    | trySend event =>
      show (c.trySend event).2.Exhausted
      rw [(refuses_of_closed (hclosed possible).1).2]
      exact h
    | cloneSender => exact ⟨h.buffer_eq, .inl (hclosed possible)⟩
    | dropSender => exact ⟨h.buffer_eq, .inl (hclosed possible)⟩
    | cloneSource => exact ⟨h.buffer_eq, h.none_coming⟩
    | dropSource =>
      show c.dropSource.Exhausted
      have hfewer : ({ c with sources := c.sources - 1 } : Channel).Exhausted :=
        ⟨h.buffer_eq, h.none_coming⟩
      unfold Channel.dropSource
      dsimp only
      split
      · exact hfewer.dropStream
      · exact hfewer
    | take =>
      show c.take.2.Exhausted
      unfold Channel.take
      split
      · exact ⟨h.buffer_eq, h.none_coming⟩
      · exact h
    | read =>
      show c.receive.2.Exhausted
      rw [h.receive]
      exact h
    | cancel => exact ⟨h.buffer_eq, h.none_coming.imp_left fun hover => ⟨rfl, hover.2⟩⟩
    | dropStream => exact h.dropStream

/-- A step that finds the stream closed is a read of an exhausted channel. -/
theorem exhausted_of_findsClosed {deed : Deed}
    (h : Chronicle.findsClosed (deed, (c.perform deed).1)) : c.Exhausted := by
  cases deed with
  | startSend | pollSend | dropSend => cases h
  | act action =>
    cases action with
    | read =>
      refine receive_closed_iff.1 ?_
      have hread : Chronicle.findsClosed (.act .read, .answer (.received c.receive.1)) := h
      cases hreceive : c.receive.1 with
      | closed => rfl
      | event | pending =>
        rw [hreceive] at hread
        cases hread
    | _ => cases h

end Exhausted

/-- **A read that found the stream closed** has found it so for good. -/
theorem Lives.exhausted {capacity : Nat} {chronicle : Chronicle} {c : Channel}
    (h : Lives capacity chronicle c)
    (hclosed : Chronicle.TellsOf Chronicle.findsClosed chronicle) : c.Exhausted := by
  induction h with
  | opened =>
    obtain ⟨step, hstep, -⟩ := hclosed
    cases hstep
  | @perform chronicle c before deed possible ih =>
    rcases (Chronicle.tellsOf_concat _ _ _).1 hclosed with hearlier | hnow
    · exact (ih hearlier).perform possible
    · exact (exhausted_of_findsClosed hnow).perform possible

/-- What was found closed once was found closed by now. -/
theorem Chronicle.TellsOf.mono {kind : Deed × Reply → Bool} {past chronicle : Chronicle}
    (h : TellsOf kind past) (hpast : past <+: chronicle) : TellsOf kind chronicle := by
  obtain ⟨step, hmem, hkind⟩ := h
  exact ⟨step, hpast.subset hmem, hkind⟩

/-! ## What is final -/

/-- **What is final** after a chronicle, and what is not. -/
structure IsFinal (chronicle : Chronicle) (c : Channel) : Prop where
  /-- The stream reports the cancellation if the subscription has ended, and only then. -/
  cancelled_iff : c.cancelled = true ↔ chronicle.HasEnded
  /-- So does every sender. -/
  isCancelled_iff : c.isCancelled = true ↔ chronicle.HasEnded
  /-- The receiving end is closed exactly if the cancellation was announced. -/
  closed_eq : c.closed = c.cancelled
  /-- Once it has ended nothing is accepted any more, and the end is reported ever after. -/
  refuses : ∀ past : Chronicle, past <+: chronicle → past.HasEnded →
    c.cancelled = true ∧ ∀ event, c.trySend event = (.error .cancelled, c)
  /-- Nor does a send get anywhere that would wait for a slot or waits for one already. -/
  refusesWaiting : ∀ past : Chronicle, past <+: chronicle → past.HasEnded →
    (∀ task event, c.startSend task event = (.done (.error .cancelled), c))
      ∧ ∀ task progress after, c.pollSend? task = some (progress, after) →
        progress = .done (.error .cancelled) ∧ after.buffer = c.buffer
  /-- Once a read has found the stream closed, every read does. -/
  staysClosed : ∀ past : Chronicle, past <+: chronicle →
    Chronicle.TellsOf Chronicle.findsClosed past → c.receive = (.closed, c)
  /-- As long as the subscription has not ended and someone can send, no read finds the stream
  closed, and no send is refused for a cancellation. -/
  staysOpen : ¬ chronicle.HasEnded → c.hasSender = true →
    c.receive.1 ≠ .closed ∧ ∀ event, (c.trySend event).1 ≠ .error .cancelled

/-- **What has ended stays ended, and what was found closed stays closed**, whatever is done with
the channel and in whatever order. -/
theorem Lives.isFinal {capacity : Nat} {chronicle : Chronicle} {c : Channel}
    (h : Lives capacity chronicle c) : IsFinal chronicle c where
  cancelled_iff := h.tells.cancelled_iff
  isCancelled_iff := by
    rw [isCancelled, h.tells.closed_eq, Bool.or_self]
    exact h.tells.cancelled_iff
  closed_eq := h.tells.closed_eq
  refuses past hpast hended := by
    have hcancelled := h.tells.cancelled_iff.2 (hended.mono h hpast)
    have hclosed : c.closed = true := h.tells.closed_eq.trans hcancelled
    exact ⟨hcancelled, (refuses_of_closed hclosed).2⟩
  refusesWaiting past hpast hended := by
    have hcancelled := h.tells.cancelled_iff.2 (hended.mono h hpast)
    have hrefused := (refuses_of_closed (h.tells.closed_eq.trans hcancelled)).1
    refine ⟨fun task event => if_pos hrefused, fun task progress after hpoll => ?_⟩
    obtain ⟨send, -, hsend⟩ := Option.map_eq_some_iff.1 hpoll
    rw [if_pos hrefused] at hsend
    cases hsend
    exact ⟨rfl, settle_buffer _⟩
  staysClosed past hpast hclosed := (h.exhausted (hclosed.mono hpast)).receive
  staysOpen hopen hsender := by
    -- With a sender left, only a cancellation could have closed the channel.
    have hnone : c.cancelled ≠ true := fun hcancelled => hopen (h.tells.cancelled_iff.1 hcancelled)
    have hunclosed : c.closed ≠ true := by rwa [h.tells.closed_eq]
    constructor
    · intro hclosed
      rcases (receive_closed_iff.1 hclosed).none_coming with ⟨hclosed, -⟩ | hnobody
      · exact hunclosed hclosed
      · rw [not_hasSender_iff.2 hnobody] at hsender
        cases hsender
    · intro event
      rw [trySend, if_neg hnone, if_neg hunclosed]
      split <;> simp

/-- A subscription that ends while one event is buffered and another waits for a slot: the first is
read, the other is refused, and from then on the stream is closed, whatever the senders do. -/
theorem isFinal_afterCancel :
    IsFinal
      [(.act (.trySend (.int 1)), .answer (.sent (.ok ()))),
        (.startSend 0 (.int 2), .progress (some .waiting)), (.act .take, .answer (.took true)),
        (.act .read, .answer (.received (.event (.int 1)))), (.act .cancel, .answer .done),
        (.act .read, .answer (.received .pending)),
        (.pollSend 0, .progress (some (.done (.error .cancelled)))),
        (.act .read, .answer (.received .closed)), (.act .cloneSender, .answer .done),
        (.act (.trySend (.int 3)), .answer (.sent (.error .cancelled)))]
      ⟨1, [], [], 2, 1, .taken, true, true⟩ := by
  apply Lives.isFinal
  have hopened : Lives 1 [] (fresh 1) := .opened
  have hsent := hopened.perform (.act (.trySend (.int 1))) Nat.one_pos
  have hwaits := hsent.perform (.startSend 0 (.int 2)) Nat.one_pos
  have htaken := hwaits.perform (.act .take) Nat.one_pos
  have hread := htaken.perform (.act .read) rfl
  have hcancelled := hread.perform (.act .cancel) rfl
  have hpending := hcancelled.perform (.act .read) rfl
  have hrefused := hpending.perform (.pollSend 0) trivial
  have hclosed := hrefused.perform (.act .read) rfl
  have hcloned := hclosed.perform (.act .cloneSender) Nat.one_pos
  exact hcloned.perform (.act (.trySend (.int 3))) Nat.two_pos

end GraphQuery.Channel
