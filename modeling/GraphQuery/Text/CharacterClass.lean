/-! # Classes of characters

A character class is a set of characters, given by ranges of code points. Its ranges are in **normal
form**: they ascend with a gap between each and the next, so that no two classes have the same
members. -/

namespace GraphQuery

/-- Whether ranges ascend, with a gap between each and the next. -/
def ascending : List (Nat × Nat) → Bool
  | [] => true
  | [range] => range.1 ≤ range.2
  | range :: next :: rest =>
    range.1 ≤ range.2 && range.2 + 1 < next.1 && ascending (next :: rest)

/-- **A class of characters**, by ranges of code points with both ends. -/
structure CharacterClass where
  /-- The ranges. -/
  ranges : List (Nat × Nat)
  /-- They are in normal form. -/
  normal : ascending ranges = true := by decide +kernel

/-- Whether a character belongs to a class. -/
def CharacterClass.contains (cls : CharacterClass) (c : Char) : Bool :=
  cls.ranges.any fun range => range.1 ≤ c.toNat && c.toNat ≤ range.2

end GraphQuery
