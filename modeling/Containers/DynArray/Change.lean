/-
Adding and removing elements.  An array makes room before it takes an element in,
and looks for a smaller capacity after it has given one away.
-/
import Containers.DynArray.Access

namespace Containers

namespace DynArray

variable {α : Type} [Element α]

/-! ### Adding -/

/-- Adds an element at the back. -/
def pushBack (memory : Allocator) (v : α) : EStateM ArrayError (DynArray α) Unit := fun a =>
  match reserveOne memory a with
  | .ok _ a => .ok () { a with store := Storage.push a.store v }
  | .error error a => .error error a

/-- Adds elements at the back, one after the other. -/
def pushBackAll (memory : Allocator) : List α → EStateM ArrayError (DynArray α) Unit
  | [], a => .ok () a
  | v :: vs, a =>
    match pushBack memory v a with
    | .ok _ a => pushBackAll memory vs a
    | .error error a => .error error a

/-- Adds an element in front of the one with index `i`, which is at most the
size. -/
def insertAt (memory : Allocator) (i : Nat) (v : α) : EStateM ArrayError (DynArray α) Unit :=
  fun a =>
    match reserveOne memory a with
    | .ok _ a => .ok () { a with store := Storage.insert a.store i v }
    | .error error a => .error error a

/-- Adds an element at the front. -/
def pushFront (memory : Allocator) (v : α) : EStateM ArrayError (DynArray α) Unit :=
  insertAt memory 0 v

/-- Adds an element in front of the one with an asserted index; the size itself
is allowed. -/
def insert (memory : Allocator) (i : Nat) (v : α) : EStateM Failure (DynArray α) Unit := fun a =>
  if a.size < i then .error (.violated (.insertion i a.size)) a
  else (insertAt memory i v).adaptExcept (.refused ∘ .array) a

/-- Adds the elements of a store at the back. -/
def extendBy (memory : Allocator) (more : Element.Store α) :
    EStateM ArrayError (DynArray α) Unit := fun a =>
  match reserveFor memory (Storage.size more) a with
  | .ok _ a => .ok () { a with store := Storage.append a.store more }
  | .error error a => .error error a

/-- Adds the elements of a list at the back. -/
def extend (memory : Allocator) (more : List α) : EStateM ArrayError (DynArray α) Unit :=
  extendBy memory (Storage.ofList more)

/-- Moves all elements of the second array to the back of the first. -/
def append (memory : Allocator) :
    EStateM ArrayError (DynArray α × DynArray α) Unit := fun (a, b) =>
  match extendBy memory b.store a with
  | .ok _ a => .ok () (a, { b with store := Storage.ofList [] })
  | .error error a => .error error (a, b)

/-! ### Removing -/

/-- Takes the last element away. -/
def popBack? : StateM (DynArray α) (Option α) := fun a =>
  match a.back? with
  | some v => (some v, shrinkIfSparse { a with store := Storage.pop a.store })
  | none => (none, a)

/-- The array without the element with index `i`, which is less than the size. -/
def removeAt (i : Nat) (a : DynArray α) : DynArray α :=
  shrinkIfSparse { a with store := Storage.erase a.store i }

/-- Takes the first element away. -/
def popFront? : StateM (DynArray α) (Option α) := fun a =>
  match a.get? 0 with
  | some v => (some v, a.removeAt 0)
  | none => (none, a)

/-- Takes the last element away from an array asserted to have one. -/
def popBack : EStateM Violation (DynArray α) α := fun a =>
  match popBack? a with
  | (some v, a) => .ok v a
  | (none, a) => .error (.empty .pop .array) a

/-- Takes the first element away from an array asserted to have one. -/
def popFront : EStateM Violation (DynArray α) α := fun a =>
  match popFront? a with
  | (some v, a) => .ok v a
  | (none, a) => .error (.empty .pop .array) a

@[simp] theorem toList_removeAt (i : Nat) (a : DynArray α) :
    (a.removeAt i).toList = a.toList.eraseIdx i := by
  rw [removeAt, toList_shrinkIfSparse]
  exact Storage.toList_erase a.store i

/-- Takes away the element with an asserted index. -/
def remove (i : Nat) : EStateM Violation (DynArray α) α := fun a =>
  match a.get? i with
  | some v => .ok v (a.removeAt i)
  | none => .error (.index i a.size) a

/-- Takes away the element with a checked index. -/
def removeChecked (i : Nat) : EStateM ArrayError (DynArray α) α := fun a =>
  match a.get? i with
  | some v => .ok v (a.removeAt i)
  | none => .error (.outOfRange i a.size) a

/-- Drops the element with an asserted index. -/
def erase (i : Nat) : EStateM Violation (DynArray α) Unit := discard (remove i)

/-- Drops all elements.  The capacity stays. -/
def clear (a : DynArray α) : DynArray α := { a with store := Storage.ofList [] }

@[simp] theorem toList_clear (a : DynArray α) : a.clear.toList = [] := Storage.toList_ofList []

/-- Hands out all elements in order.  The capacity stays. -/
def drain : StateM (DynArray α) (List α) := fun a => (a.toList, a.clear)

/-! ### Whole arrays -/

/-- An array with the elements of a list, as if added one by one. -/
def ofList (memory : Allocator) (xs : List α) : Except ArrayError (DynArray α) := do
  built (pushBackAll memory xs) (← new memory)

/-- An array with the elements of a list, added all at once. -/
def ofBlock (memory : Allocator) (xs : List α) : Except ArrayError (DynArray α) := do
  built (extend memory xs) (← new memory)

/-- A copy with the policy, the capacity and the elements of the array. -/
def clone (memory : Allocator) (a : DynArray α) : Except ArrayError (DynArray α) := do
  let copy ← built (reserve memory a.capacity) (← ofPolicy memory a.policy)
  return { copy with store := Storage.append copy.store a.store }

end DynArray

end Containers
