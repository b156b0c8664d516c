/-
Sizes, indices and capacities are natural numbers below a fixed bound.  A sum
past the bound is reported as missing and never wraps around.
-/
namespace Containers

/-- The largest number that a size, an index or a capacity can be. -/
def maxSize : Nat := 18446744073709551615

/-- The most bytes that one block of memory can take. -/
def maxBytes : Nat := 9223372036854775807

/-- The sum of two sizes, if it is a size. -/
def sizeSum? (left right : Nat) : Option Nat :=
  if left + right ≤ maxSize then some (left + right) else none

/-- The most elements of `bytes` bytes each that one block can hold.  Elements
that take no memory are limited by the largest size alone. -/
def slotLimit (bytes : Nat) : Nat :=
  if bytes = 0 then maxSize else maxBytes / bytes

theorem sizeSum?_eq_some_iff {left right sum : Nat} :
    sizeSum? left right = some sum ↔ sum = left + right ∧ left + right ≤ maxSize := by
  unfold sizeSum?
  split
  · simp [*, eq_comm]
  · simp [*]

theorem sizeSum?_eq_none_iff {left right : Nat} :
    sizeSum? left right = none ↔ maxSize < left + right := by
  unfold sizeSum?
  split <;> simp <;> omega

@[simp] theorem slotLimit_zero : slotLimit 0 = maxSize := rfl

theorem slotLimit_le_maxSize (bytes : Nat) : slotLimit bytes ≤ maxSize := by
  unfold slotLimit
  split
  · exact Nat.le_refl _
  · exact Nat.le_trans (Nat.div_le_self _ _) (by decide)

end Containers
