import GraphQuery.Binary64

/-! # The fewest digits that identify a number

`Binary64.shortest` gives a positive finite number in decimal, `digits · 10^exponent`, with the
fewest digits for which no other binary number is nearer. The reals nearest to a number `m · 2^q`
form an interval around it, with its ends if `m` is even; of the decimals with the fewest digits
in that interval the one nearest to the number is taken, and of two equally near ones the even
one. -/

namespace GraphQuery.Binary64

/-- A positive number between the two ends of its rounding interval, as fractions of one
denominator. -/
structure Interval where
  /-- Four times the numerator of the number. -/
  centre : Nat
  /-- Four times the numerator of the lower end. -/
  lower : Nat
  /-- Four times the numerator of the upper end. -/
  upper : Nat
  /-- Four times the denominator. -/
  scale : Nat
  /-- Whether the ends belong to the interval. -/
  closed : Bool

/-- The rounding interval of `m · 2^q`; below a power of two the gap is half as wide. -/
def Interval.around (m : Nat) (q : Int) : Interval :=
  let up := powerOfTwo q.toNat
  let below := if m = fractions ∧ -1074 < q then 1 else 2
  ⟨4 * m * up, (4 * m - below) * up, (4 * m + 2) * up, 4 * powerOfTwo (-q).toNat, m % 2 = 0⟩

/-- Whether the decimal `digits · 10^exponent` lies in the interval. -/
def Interval.contains (interval : Interval) (digits : Nat) (exponent : Int) : Bool :=
  let value := digits * powerOfTen exponent.toNat * interval.scale
  let unit := powerOfTen (-exponent).toNat
  if interval.closed then interval.lower * unit ≤ value && value ≤ interval.upper * unit
  else interval.lower * unit < value && value < interval.upper * unit

/-- The neighbour of the number on the grid of multiples of `10^exponent` that lies in the
interval, if one does; the nearer of two, and the even one if both are equally near. -/
def Interval.onGrid? (interval : Interval) (exponent : Int) : Option Nat :=
  let num := interval.centre * powerOfTen (-exponent).toNat
  let den := interval.scale * powerOfTen exponent.toNat
  let below := num / den
  let above := below + 1
  match interval.contains below exponent, interval.contains above exponent with
  | true, true => some (divHalfEven num den)
  | true, false => some below
  | false, true => some above
  | false, false => none

/-- Tries ever finer grids, and gives the digits and the exponent of the first hit. -/
def Interval.search (interval : Interval) : (tries : Nat) → (exponent : Int) → Nat × Int
  | 0, exponent =>
    (interval.centre * powerOfTen (-exponent).toNat
      / (interval.scale * powerOfTen exponent.toNat), exponent)
  | tries + 1, exponent =>
    match interval.onGrid? exponent with
    | some digits => if digits = 0 then interval.search tries (exponent - 1) else (digits, exponent)
    | none => interval.search tries (exponent - 1)

/-- Moves trailing zeros of the digits into the exponent. -/
def dropZeros : (tries : Nat) → Nat → Int → Nat × Int
  | 0, digits, exponent => (digits, exponent)
  | tries + 1, digits, exponent =>
    if digits % 10 = 0 ∧ digits ≠ 0 then dropZeros tries (digits / 10) (exponent + 1)
    else (digits, exponent)

/-- **The shortest decimal** `digits · 10^exponent` of a positive finite number. -/
def shortest (x : Binary64) : Nat × Int :=
  let (m, q) := x.decode
  let interval := Interval.around m q
  let size : Int := ((m.log2 : Int) + q) * 30103 / 100000 + 1
  let (digits, exponent) := interval.search 40 size
  dropZeros 20 digits exponent

end GraphQuery.Binary64
