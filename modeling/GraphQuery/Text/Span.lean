/-! # Byte offsets and spans of source text

Source text is a list of characters, addressed by **byte offsets** into its UTF-8 form. A
`Span` is a half-open interval of such offsets, and `Span.slice?` reads the characters under
it: it answers only when both ends lie in bounds and on character borders. -/

namespace GraphQuery

/-- The number of bytes of the UTF-8 form of a text. -/
def byteLength : List Char → Nat
  | [] => 0
  | c :: cs => c.utf8Size + byteLength cs

@[simp] theorem byteLength_nil : byteLength [] = 0 := rfl

@[simp] theorem byteLength_cons (c : Char) (cs : List Char) :
    byteLength (c :: cs) = c.utf8Size + byteLength cs := rfl

/-- The bytes of two texts written one after the other are the bytes of both. -/
@[simp] theorem byteLength_append (as bs : List Char) :
    byteLength (as ++ bs) = byteLength as + byteLength bs := by
  induction as with
  | nil => simp
  | cons c cs ih => simp [ih, Nat.add_assoc]

/-- Splits a text at a byte offset; there is no answer past the end or inside a character. -/
def splitAtByte? : Nat → List Char → Option (List Char × List Char)
  | 0, cs => some ([], cs)
  | _ + 1, [] => none
  | n + 1, c :: cs =>
    if c.utf8Size ≤ n + 1 then
      (splitAtByte? (n + 1 - c.utf8Size) cs).map fun (before, after) => (c :: before, after)
    else none

@[simp] theorem splitAtByte?_zero (cs : List Char) : splitAtByte? 0 cs = some ([], cs) := by
  cases cs <;> rfl

/-- A text splits at the end of any initial stretch of it. -/
@[simp] theorem splitAtByte?_byteLength (before after : List Char) :
    splitAtByte? (byteLength before) (before ++ after) = some (before, after) := by
  induction before with
  | nil => simp
  | cons c cs ih =>
    have hpos : 0 < c.utf8Size := Char.utf8Size_pos c
    obtain ⟨n, hn⟩ : ∃ n, byteLength (c :: cs) = n + 1 :=
      ⟨c.utf8Size + byteLength cs - 1, by simp only [byteLength_cons]; omega⟩
    rw [hn, List.cons_append, splitAtByte?]
    have hle : c.utf8Size ≤ n + 1 := by rw [← hn]; simp
    have hrest : n + 1 - c.utf8Size = byteLength cs := by rw [← hn]; simp
    rw [if_pos hle, hrest, ih]
    rfl

/-- **A span**: the byte offsets from `start` up to, and without, `stop`. -/
structure Span where
  /-- The offset of the first byte. -/
  start : Nat
  /-- The offset after the last byte. -/
  stop : Nat
deriving DecidableEq, Inhabited

namespace Span

/-- The largest offset that a span made from offsets records, in thirty-two bits. -/
def maxOffset : Nat := 0xffffffff

/-- The span between two offsets, each cut to `maxOffset`. -/
def ofOffsets (start stop : Nat) : Span := ⟨min start maxOffset, min stop maxOffset⟩

/-- The empty span at one offset. -/
def emptyAt (offset : Nat) : Span := ⟨offset, offset⟩

/-- The number of bytes covered; a span that ends before it starts covers none. -/
def length (s : Span) : Nat := s.stop - s.start

/-- A span is empty when it covers no byte. -/
def isEmpty (s : Span) : Bool := s.stop ≤ s.start

/-- Below the largest offset, a span keeps both offsets as given. -/
theorem ofOffsets_eq {start stop : Nat} (h₁ : start ≤ maxOffset) (h₂ : stop ≤ maxOffset) :
    ofOffsets start stop = ⟨start, stop⟩ := by
  simp [ofOffsets, Nat.min_eq_left h₁, Nat.min_eq_left h₂]

/-- The characters of `source` under the span, when it is in bounds and cuts no character. -/
def slice? (s : Span) (source : List Char) : Option (List Char) :=
  if s.start ≤ s.stop then
    (splitAtByte? s.start source).bind fun (_, after) =>
      (splitAtByte? (s.stop - s.start) after).map Prod.fst
  else none

/-- The slice between the end of `before` and the end of `inside` is `inside`. -/
theorem slice?_between (before inside after : List Char) :
    slice? ⟨byteLength before, byteLength before + byteLength inside⟩ (before ++ (inside ++ after))
      = some inside := by
  simp [slice?]

end Span

end GraphQuery
