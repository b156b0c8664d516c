/-
Memory is known to the containers only through the requests that are granted.
-/
namespace Containers

/-- An allocator, given by the sizes of the blocks that it grants.  A block of
no bytes needs no memory, so it is always granted. -/
structure Allocator where
  grants : Nat → Bool
  grants_zero : grants 0 = true

namespace Allocator

/-- Grants exactly the blocks of at most `limit` bytes. -/
def upTo (limit : Nat) : Allocator where
  grants bytes := decide (bytes ≤ limit)
  grants_zero := by simp

/-- Grants every block that fits into an address space of `2^47` bytes. -/
def addressSpace : Allocator := upTo 140737488355328

/-- No memory is left: only blocks of no bytes are granted. -/
def exhausted : Allocator := upTo 0

/-- A smaller block is granted whenever a larger one is. -/
def Monotone (memory : Allocator) : Prop :=
  ∀ small large, small ≤ large → memory.grants large = true → memory.grants small = true

@[simp] theorem grants_upTo {limit bytes : Nat} :
    (upTo limit).grants bytes = true ↔ bytes ≤ limit := by
  simp [upTo]

theorem monotone_upTo (limit : Nat) : (upTo limit).Monotone := by
  intro small large hle hlarge
  rw [grants_upTo] at hlarge ⊢
  exact Nat.le_trans hle hlarge

end Allocator

end Containers
