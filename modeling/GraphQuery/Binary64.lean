/-! # Binary floating point numbers of 64 bits

A `Binary64` is a bit pattern: a sign, eleven bits of exponent and fifty-two of fraction. A
finite number stands for `m · 2^q` with natural `m` and integer `q`, and all arithmetic here is
exact arithmetic on such pairs followed by one rounding to the nearest number, ties to the even
one. Two numbers are equal when they are the same number, so that the two zeros are equal and
nothing equals a NaN. -/

namespace GraphQuery

/-- **A binary floating point number**, by its bits. -/
structure Binary64 where
  /-- The bit pattern. -/
  bits : UInt64
deriving DecidableEq, Inhabited

namespace Binary64

/-- The bit that carries the sign. -/
def signBit : Nat := 0x8000000000000000

/-- The bits of positive infinity, above those of every finite number. -/
def infinityBits : Nat := 0x7ff0000000000000

/-- Whether the sign is negative. -/
def isNegative (x : Binary64) : Bool := signBit ≤ x.bits.toNat

/-- The bits without the sign. -/
def magnitude (x : Binary64) : Nat := x.bits.toNat % signBit

/-- Whether the pattern stands for no number. -/
def isNaN (x : Binary64) : Bool := infinityBits < x.magnitude

/-- Whether the pattern stands for a finite number. -/
def isFinite (x : Binary64) : Bool := x.magnitude < infinityBits

/-- Whether two patterns stand for the same number. -/
def equals (x y : Binary64) : Bool :=
  !x.isNaN && !y.isNaN && (x = y || (x.magnitude = 0 && y.magnitude = 0))

/-- Equality is symmetric. -/
theorem equals_comm (x y : Binary64) : x.equals y = y.equals x := by
  unfold equals
  rw [Bool.and_comm (!x.isNaN), Bool.and_comm (decide (x.magnitude = 0))]
  simp only [eq_comm (a := x)]

/-- Everything but a NaN equals itself. -/
theorem equals_self {x : Binary64} (h : x.isNaN = false) : x.equals x = true := by
  simp [equals, h]

/-- Equality is transitive. -/
theorem equals_trans {x y z : Binary64} (hxy : x.equals y = true) (hyz : y.equals z = true) :
    x.equals z = true := by
  simp only [equals, Bool.and_eq_true, Bool.or_eq_true, decide_eq_true_eq] at *
  obtain ⟨⟨hx, hy⟩, rfl | ⟨hx0, hy0⟩⟩ := hxy
  · exact hyz
  · obtain ⟨⟨_, hz⟩, rfl | ⟨_, hz0⟩⟩ := hyz
    · exact ⟨⟨hx, hy⟩, .inr ⟨hx0, hy0⟩⟩
    · exact ⟨⟨hx, hz⟩, .inr ⟨hx0, hz0⟩⟩

/-- The number with given sign and magnitude. -/
def ofMagnitude (negative : Bool) (magnitude : Nat) : Binary64 :=
  ⟨UInt64.ofNat (if negative then signBit + magnitude else magnitude)⟩

/-- A NaN has many patterns; this is the one to show. -/
def canonical (x : Binary64) : Binary64 := if x.isNaN then ⟨0x7ff8000000000000⟩ else x

/-- The number of fractions between a power of two and the next. -/
def fractions : Nat := 0x10000000000000

/-- A finite number's magnitude as `m · 2^q`. -/
def decode (x : Binary64) : Nat × Int :=
  let biased : Nat := x.magnitude / fractions
  let fraction : Nat := x.magnitude % fractions
  if biased = 0 then (fraction, -1074) else (fractions + fraction, (biased : Int) - 1075)

/-- A power of two. -/
def powerOfTwo (n : Nat) : Nat := Nat.pow 2 n

/-- A power of ten. -/
def powerOfTen (n : Nat) : Nat := Nat.pow 10 n

/-- The quotient of two naturals, rounded to the nearest natural, a half to the even one. -/
def divHalfEven (num den : Nat) : Nat :=
  let quotient := num / den
  let twice := 2 * (num % den)
  if den < twice || (twice = den && quotient % 2 = 1) then quotient + 1 else quotient

/-- The quotient `num · 2^-q / den`, rounded. -/
def scaledQuotient (num den : Nat) (q : Int) : Nat :=
  divHalfEven (num * powerOfTwo (-q).toNat) (den * powerOfTwo q.toNat)

/-- The magnitude nearest to the quotient of two naturals; too large a quotient is infinite. -/
def roundRatio (num den : Nat) : Nat :=
  if num = 0 then 0
  else
    let guess : Int := (num.log2 : Int) - (den.log2 : Int) - 53
    let wide := 2 * fractions ≤ num * powerOfTwo (-guess).toNat / (den * powerOfTwo guess.toNat)
    let q : Int := max (if wide then guess + 1 else guess) (-1074)
    min ((q + 1074).toNat * fractions + scaledQuotient num den q) infinityBits

/-- The number nearest to a natural number. -/
def ofNat (n : Nat) : Binary64 := ofMagnitude false (roundRatio n 1)

/-- The number nearest to an integer. -/
def ofInt (n : Int) : Binary64 := ofMagnitude (n < 0) (roundRatio n.natAbs 1)

/-- The number of the opposite sign. -/
def negate (x : Binary64) : Binary64 := ofMagnitude (!x.isNegative) x.magnitude

/-- The product of two finite magnitudes. -/
def mulMagnitude (x y : Binary64) : Binary64 :=
  let (m, p) := x.decode
  let (n, q) := y.decode
  ofMagnitude false (roundRatio (m * n * powerOfTwo (p + q).toNat) (powerOfTwo (-(p + q)).toNat))

/-- The quotient of two finite magnitudes, the second of which is not zero. -/
def divMagnitude (x y : Binary64) : Binary64 :=
  let (m, p) := x.decode
  let (n, q) := y.decode
  ofMagnitude false (roundRatio (m * powerOfTwo (p - q).toNat) (n * powerOfTwo (q - p).toNat))

end Binary64

end GraphQuery
