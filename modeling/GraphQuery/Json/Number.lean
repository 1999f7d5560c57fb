import GraphQuery.Json

/-! # Reading JSON numbers

A number is an optional minus sign, digits with no leading zero, and, each if present, a point
with digits after it and an exponent. Digits alone are an integer if they fit sixty-four bits, of
which a minus sign takes one, and minus zero is not an integer. Everything else is a float, read in
two roundings: the digits are taken as an integer of at most sixty-four bits, digits that do not fit
any more are dropped, and the integer is scaled by a power of ten. A number beyond the range of
floats is invalid. -/

namespace GraphQuery.Json

/-- The largest integer of sixty-four bits without a sign. -/
def maxWord : Nat := 0xffffffffffffffff

/-- The largest integer of thirty-two bits with a sign, which bounds exponents. -/
def maxExponent : Nat := 0x7fffffff

/-- The value of a decimal digit. -/
def digit? (c : Char) : Option Nat := if c.isDigit then some (c.toNat - '0'.toNat) else none

/-- The number without its sign, while its digits are taken in. -/
structure Scan where
  /-- The digits taken so far, as an integer. -/
  significand : Nat
  /-- The power of ten to scale by. -/
  exponent : Int

/-- Takes in the digits of an integer; those that do not fit raise the exponent instead. -/
def scanWhole (scan : Scan) (isFull : Bool) : List Char → Scan × Bool × List Char
  | [] => (scan, isFull, [])
  | c :: cs =>
    match digit? c with
    | none => (scan, isFull, c :: cs)
    | some d =>
      if isFull || maxWord < scan.significand * 10 + d then
        scanWhole { scan with exponent := scan.exponent + 1 } true cs
      else scanWhole { scan with significand := scan.significand * 10 + d } false cs

/-- Takes in the digits after a point; the first that does not fit and all after it are dropped. -/
def scanFraction (scan : Scan) : List Char → Scan × List Char
  | [] => (scan, [])
  | c :: cs =>
    match digit? c with
    | none => (scan, c :: cs)
    | some d =>
      if maxWord < scan.significand * 10 + d then (scan, cs.dropWhile Char.isDigit)
      else scanFraction ⟨scan.significand * 10 + d, scan.exponent - 1⟩ cs

/-- The value of the digits of an exponent, or nothing if they exceed the bound. -/
def exponentValue? (digits : List Char) : Option Nat :=
  let value := digits.foldl (fun acc c => acc * 10 + (c.toNat - '0'.toNat)) 0
  if value ≤ maxExponent then some value else none

/-- The largest power of ten that is scaled by at once. -/
def maxPower : Nat := 308

/-- Divides by powers of ten until the exponent is small. -/
def lowerBy : (rounds : Nat) → Binary64 → Nat → Binary64 × Nat
  | 0, x, down => (x, down)
  | rounds + 1, x, down =>
    if down ≤ maxPower ∨ x.magnitude = 0 then (x, down)
    else
      lowerBy rounds (x.divMagnitude (Binary64.ofNat (Binary64.powerOfTen maxPower)))
        (down - maxPower)

/-- An integer scaled by a power of ten, rounded at each step. -/
def scale (scan : Scan) : Binary64 :=
  let x := Binary64.ofNat scan.significand
  if x.magnitude = 0 then x
  else if 0 ≤ scan.exponent then
    if (maxPower : Int) < scan.exponent then ⟨UInt64.ofNat Binary64.infinityBits⟩
    else x.mulMagnitude (Binary64.ofNat (Binary64.powerOfTen scan.exponent.toNat))
  else
    let (y, down) := lowerBy 4 x scan.exponent.natAbs
    if y.magnitude = 0 then y
    else if down ≤ maxPower then y.divMagnitude (Binary64.ofNat (Binary64.powerOfTen down)) else ⟨0⟩

/-- A float with its sign, if it is finite. -/
def signed (negative : Bool) (x : Binary64) : Json :=
  if x.isFinite then .float (if negative then x.negate else x) else .invalid

/-- Ends a float, whose exponent comes next if there is one. -/
def finishFloat (negative : Bool) (scan : Scan) (cs : List Char) : Option (Json × List Char) :=
  match cs with
  | c :: cs' =>
    if c = 'e' ∨ c = 'E' then
      let (down, cs'') := match cs' with
        | '+' :: rest => (false, rest)
        | '-' :: rest => (true, rest)
        | rest => (false, rest)
      let digits := cs''.takeWhile Char.isDigit
      let rest := cs''.dropWhile Char.isDigit
      if digits = [] then none
      else
        match exponentValue? digits with
        | some value =>
          let exponent := if down then scan.exponent - value else scan.exponent + value
          some (signed negative (scale ⟨scan.significand, exponent⟩), rest)
        | none =>
          if scan.significand ≠ 0 ∧ !down then some (.invalid, rest)
          else some (signed negative ⟨0⟩, rest)
    else some (signed negative (scale scan), cs)
  | [] => some (signed negative (scale scan), [])

/-- The size of the smallest integer of sixty-four bits with a sign. -/
def negativeBound : Nat := 0x8000000000000000

/-- The integer whose digits fit sixty-four bits, or a float where a minus sign makes it too small
or makes it minus zero. -/
def integer (negative : Bool) (significand : Nat) : Json :=
  if negative then
    if significand = 0 ∨ negativeBound < significand then signed true (Binary64.ofNat significand)
    else .int (-significand)
  else .int significand

/-- Reads a number without its sign. -/
def readUnsigned (negative : Bool) (cs : List Char) : Option (Json × List Char) :=
  match cs with
  | [] => none
  | c :: cs' =>
    if !c.isDigit then none
    else if c = '0' ∧ (cs'.head?.any Char.isDigit) then none
    else
      match scanWhole ⟨0, 0⟩ false cs with
      | (scan, _, '.' :: rest) =>
        if rest.head?.any Char.isDigit then
          let (scan, rest) := scanFraction scan rest
          finishFloat negative scan rest
        else none
      | (scan, isFull, rest) =>
        if isFull ∨ rest.head? = some 'e' ∨ rest.head? = some 'E' then
          finishFloat negative scan rest
        else some (integer negative scan.significand, rest)

/-- **Reads a number** at the head of a text. -/
def readNumber (cs : List Char) : Option (Json × List Char) :=
  match cs with
  | '-' :: rest => readUnsigned true rest
  | _ => readUnsigned false cs

end GraphQuery.Json
