/-
When an array grows, when it shrinks, and to which capacity.  The factors are
binary64 numbers and every product and quotient is rounded once.
-/
import Containers.Binary64.Basic

namespace Containers

namespace Policy

/-- The numbers of a policy before they are checked. -/
structure Parameters where
  growthFactor : Binary64
  shrinkThreshold : Binary64
  minCapacity : Nat
deriving DecidableEq

/-- What can be wrong with the numbers of a policy. -/
inductive Fault
  | growthFactor
  | shrinkThreshold
  | product
  | minCapacity
deriving DecidableEq

/-- The reason given for rejecting a policy. -/
def Fault.reason : Fault → String
  | .growthFactor => "growth factor must be a finite number greater than 1"
  | .shrinkThreshold => "shrink threshold must be positive"
  | .product => "shrink threshold times growth factor must be below 1"
  | .minCapacity => "minimum capacity must be at least 1"

/-- A growth factor is a finite number above one. -/
def growsBy (factor : Binary64.Value) : Bool :=
  match factor with
  | .finite number => decide (1 < number)
  | _ => false

/-- The first fault of the given numbers. -/
def fault? (p : Parameters) : Option Fault :=
  let growth := p.growthFactor.value
  let threshold := p.shrinkThreshold.value
  if !growsBy growth then some .growthFactor
  else if !Binary64.Value.lt (.finite 0) threshold then some .shrinkThreshold
  else if Binary64.Value.le (.finite 1) (threshold.mul growth) then some .product
  else if p.minCapacity = 0 then some .minCapacity
  else none

end Policy

/-- A policy: numbers without a fault. -/
structure Policy extends Policy.Parameters where
  faultless : Policy.fault? toParameters = none
deriving DecidableEq

namespace Policy

/-- Checks the numbers of a policy. -/
def ofParameters (p : Parameters) : Except Fault Policy :=
  match h : fault? p with
  | none => .ok ⟨p, h⟩
  | some fault => .error fault

/-- Two, as a growth factor. -/
def defaultGrowthFactor : Binary64 := ⟨0x4000000000000000⟩

/-- One quarter, as a shrink threshold. -/
def defaultShrinkThreshold : Binary64 := ⟨0x3fd0000000000000⟩

/-- The smallest capacity of an array unless another is asked for. -/
def defaultMinCapacity : Nat := 4

/-- A growth factor with the usual threshold and minimum. -/
def Parameters.ofGrowthFactor (factor : Binary64) : Parameters where
  growthFactor := factor
  shrinkThreshold := defaultShrinkThreshold
  minCapacity := defaultMinCapacity

/-- Double when full, halve at a quarter, never below four. -/
def standard : Policy where
  toParameters := .ofGrowthFactor defaultGrowthFactor
  faultless := by decide +kernel

instance : Inhabited Policy := ⟨standard⟩

/-- The growth factor as an exact number. -/
def growth (p : Policy) : Rat := p.growthFactor.toRat?.getD 1

/-- The array is full: one more element needs a larger capacity. -/
def shouldGrow (_p : Policy) (size capacity : Nat) : Bool := size == capacity

/-- The size is at or below the shrink line of the capacity. -/
def shouldShrink (p : Policy) (size capacity : Nat) : Bool :=
  Binary64.Value.le (.ofNat size)
    ((Binary64.Value.ofNat capacity).mul p.shrinkThreshold.value)

/-- The size that a number is rounded up to, found from its integer part. -/
def roundedUp? (x : Binary64.Value) : Option Nat :=
  let whole := x.toSize
  if (Binary64.Value.ofNat whole).lt x then sizeSum? whole 1 else some whole

/-- The capacity after `capacity` on the way up: the product with the growth
factor, rounded up to an integer, but more than `capacity` and no less than the
minimum.  Missing when it is no size. -/
def grown? (p : Policy) (capacity : Nat) : Option Nat :=
  let product := (Binary64.Value.ofNat capacity).mul p.growthFactor.value
  if product.lt (.ofNat maxSize) then
    match roundedUp? product, sizeSum? capacity 1 with
    | some target, some next => some (max (max target next) p.minCapacity)
    | _, _ => none
  else none

theorem lt_of_grown? {p : Policy} {capacity target : Nat} (h : p.grown? capacity = some target) :
    capacity < target := by
  unfold grown? at h
  dsimp only at h
  split at h
  · split at h
    · rename_i hnext
      rw [sizeSum?_eq_some_iff] at hnext
      rw [Option.some.injEq] at h
      omega
    · contradiction
  · contradiction

/-- The first capacity on the path up from `capacity` that is at least
`required`.  Missing when the path ends before. -/
def climb? (p : Policy) (required capacity : Nat) : Option Nat :=
  if required ≤ capacity then some capacity
  else
    match _h : p.grown? capacity with
    | none => none
    | some next => climb? p required next
termination_by required - capacity
decreasing_by
  have hlt := lt_of_grown? (by assumption)
  omega

/-- The capacity to shrink to: the quotient by the growth factor without its
fraction, but no less than the minimum and the size.  Missing unless it is less
than the present capacity. -/
def shrunk? (p : Policy) (capacity size : Nat) : Option Nat :=
  if capacity ≤ p.minCapacity then none
  else
    let quotient := (Binary64.Value.ofNat capacity).divideBy p.growth
    let target := max (max quotient.toSize p.minCapacity) size
    if target < capacity then some target else none

end Policy

end Containers
