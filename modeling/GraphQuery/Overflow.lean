/-! # One more than a word

Distances and indices have sixty-four bits, and a count that is to reach them is one more. That sum
does not fit for the largest of them, and what becomes of it depends on how additions are carried
out: either it is noticed and nothing is computed any more, or the bit that does not fit is left
out. Both are here, and they agree wherever the sum fits. -/

namespace GraphQuery

/-- **What an addition does about a sum that does not fit** into sixty-four bits. -/
inductive Overflow where
  /-- It notices. -/
  | noticed
  /-- It leaves out the bit that does not fit. -/
  | wraps
deriving DecidableEq

namespace Overflow

/-- One more than a word; nothing if the sum does not fit and that is noticed. -/
def succ? (overflow : Overflow) (n : UInt64) : Option UInt64 :=
  match overflow with
  | noticed => if n.toNat + 1 < UInt64.size then some (n + 1) else none
  | wraps => some (n + 1)

/-- **The sum is exact** exactly if it fits. -/
theorem toNat_add_one_iff (n : UInt64) :
    (n + 1).toNat = n.toNat + 1 ↔ n.toNat + 1 < UInt64.size := by
  rw [UInt64.toNat_add]
  show (n.toNat + 1) % UInt64.size = _ ↔ _
  rw [UInt64.size]
  omega

/-- A sum that does not fit becomes zero without the bit that is too much. -/
theorem toNat_add_one_of_not_lt {n : UInt64} (h : ¬ n.toNat + 1 < UInt64.size) :
    (n + 1).toNat = 0 := by
  have hlt := n.toNat_lt
  rw [UInt64.toNat_add]
  show (n.toNat + 1) % UInt64.size = 0
  rw [UInt64.size] at h ⊢
  omega

/-- A sum that fits does not depend on what is done about others. -/
theorem succ?_of_lt (overflow : Overflow) {n : UInt64} (h : n.toNat + 1 < UInt64.size) :
    overflow.succ? n = some (n + 1) := by
  cases overflow with
  | noticed => exact if_pos h
  | wraps => rfl

/-- A sum that does not fit is noticed. -/
theorem noticed_succ?_of_not_lt {n : UInt64} (h : ¬ n.toNat + 1 < UInt64.size) :
    noticed.succ? n = none :=
  if_neg h

end Overflow

end GraphQuery
