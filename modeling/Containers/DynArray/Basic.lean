/-
Arrays that grow and shrink.  The capacity is a number of its own: it moves along
the path given by the policy, and every change of it counts as a reallocation.
-/
import Containers.Allocator
import Containers.Error
import Containers.Policy
import Containers.Storage

namespace Containers

/-- Elements in order, the number of them that there is room for, the policy by
which that number changes, and how often it has changed. -/
structure DynArray (α : Type) [Element α] where
  store : Element.Store α
  capacity : Nat
  policy : Policy
  reallocations : Nat

namespace DynArray

variable {α : Type} [Element α]

/-- The elements in order. -/
def toList (a : DynArray α) : List α := Storage.toList a.store

def size (a : DynArray α) : Nat := Storage.size a.store

def isEmpty (a : DynArray α) : Bool := a.size == 0

theorem size_eq_length (a : DynArray α) : a.size = a.toList.length :=
  Storage.size_eq_length a.store

/-- No room for another element is left. -/
def isFull (a : DynArray α) : Bool := a.policy.shouldGrow a.size a.capacity

/-- An array before its first reservation. -/
def blank (policy : Policy) : DynArray α := ⟨Storage.ofList [], 0, policy, 0⟩

@[simp] theorem toList_blank (policy : Policy) : (blank policy : DynArray α).toList = [] :=
  Storage.toList_ofList []

/-- The array that an action leaves behind, if the action is not refused. -/
def built (action : EStateM ArrayError (DynArray α) Unit) (a : DynArray α) :
    Except ArrayError (DynArray α) :=
  match action a with
  | .ok _ result => .ok result
  | .error error _ => .error error

/-! ### Changing the capacity -/

/-- Moves to a block for `capacity` elements. -/
def withCapacity (a : DynArray α) (capacity : Nat) : DynArray α :=
  { a with capacity := capacity, reallocations := a.reallocations + 1 }

@[simp] theorem toList_withCapacity (a : DynArray α) (capacity : Nat) :
    (a.withCapacity capacity).toList = a.toList := rfl

/-- Asks for a block for `capacity` elements and moves to it. -/
def reallocate (memory : Allocator) (capacity : Nat) :
    EStateM ArrayError (DynArray α) Unit := fun a =>
  if Element.limit α < capacity then .error (.overflow capacity) a
  else if memory.grants (capacity * Element.bytes α) then .ok () (a.withCapacity capacity)
  else .error (.badAlloc capacity) a

/-- One step up the path of capacities. -/
def grow (memory : Allocator) : EStateM ArrayError (DynArray α) Unit := fun a =>
  match a.policy.grown? a.capacity with
  | none => .error (.overflow maxSize) a
  | some target => reallocate memory target a

/-- Room for one more element. -/
def reserveOne (memory : Allocator) : EStateM ArrayError (DynArray α) Unit := fun a =>
  if a.isFull then grow memory a else .ok () a

/-- Room for `additional` more elements, at the first capacity on the path that
is large enough. -/
def reserveFor (memory : Allocator) (additional : Nat) :
    EStateM ArrayError (DynArray α) Unit := fun a =>
  match sizeSum? a.size additional with
  | none => .error (.overflow maxSize) a
  | some required =>
    if required ≤ a.capacity then .ok () a
    else
      match a.policy.climb? required a.capacity with
      | none => .error (.overflow required) a
      | some target => reallocate memory target a

/-- Room for `capacity` elements in all; never less than before. -/
def reserve (memory : Allocator) (capacity : Nat) : EStateM ArrayError (DynArray α) Unit :=
  fun a => if a.capacity < capacity then reallocate memory capacity a else .ok () a

/-- One step down, if the array is sparse and a smaller capacity is allowed. -/
def shrinkIfSparse (a : DynArray α) : DynArray α :=
  if a.policy.shouldShrink a.size a.capacity then
    match a.policy.shrunk? a.capacity a.size with
    | none => a
    | some target => a.withCapacity target
  else a

@[simp] theorem toList_shrinkIfSparse (a : DynArray α) : a.shrinkIfSparse.toList = a.toList := by
  unfold shrinkIfSparse
  split
  · split <;> rfl
  · rfl

/-! ### Construction -/

/-- An empty array with the smallest capacity of its policy. -/
def ofPolicy (memory : Allocator) (policy : Policy) : Except ArrayError (DynArray α) :=
  built (reallocate memory policy.minCapacity) (blank policy)

/-- An empty array with the standard policy. -/
def new (memory : Allocator) : Except ArrayError (DynArray α) := ofPolicy memory .standard

/-- An empty array for a policy that is still to be checked. -/
def ofParameters (memory : Allocator) (parameters : Policy.Parameters) :
    Except ArrayError (DynArray α) :=
  match Policy.ofParameters parameters with
  | .ok policy => ofPolicy memory policy
  | .error fault => .error (.invalidPolicy fault.reason)

end DynArray

end Containers
