/-
Binary search for the place where a property of indices stops to hold.
-/
namespace Containers

/-- An index from `low` to `high` at which a property stops to hold: all indices
before it have the property and all from it on do not, if there is such an index at
all.  Each step looks at the index in the middle. -/
def partitionPoint (holds : Nat → Bool) (low high : Nat) : Nat :=
  if low < high then
    let middle := low + (high - low) / 2
    if holds middle then partitionPoint holds (middle + 1) high
    else partitionPoint holds low middle
  else low
termination_by high - low

theorem partitionPoint_le {holds : Nat → Bool} {low high : Nat} (h : low ≤ high) :
    partitionPoint holds low high ≤ high := by
  fun_induction partitionPoint holds low high with
  | case1 low high hlt middle hholds ih => exact ih (by omega)
  | case2 low high hlt middle hholds ih =>
    have hle := ih (by omega)
    omega
  | case3 low high hlt => exact h

end Containers
