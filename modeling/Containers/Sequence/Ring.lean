/-
A circle of slots.  The elements lie one behind the other from the head on, past
the last slot and on from the first one, so that both ends can move by one slot.
-/
import Containers.Sequence.Basic
import Containers.Storage

namespace Containers

/-- The slots, the slot of the first element, the number of elements, and the
number of slots that memory is reserved for.  Slots are laid out when they are
first needed. -/
structure Ring (α : Type) where
  slots : Array (Option α)
  head : Nat
  size : Nat
  reserved : Nat

namespace Ring

variable {α : Type}

/-- No slots, and no memory reserved. -/
def empty : Ring α := ⟨#[], 0, 0, 0⟩

/-- The slot that is `i` steps after the head. -/
def position (r : Ring α) (i : Nat) : Nat :=
  if r.head + i < r.slots.size then r.head + i else r.head + i - r.slots.size

/-- What lies `i` steps after the head. -/
def read (r : Ring α) (i : Nat) : Option α := (r.slots[r.position i]?).join

/-- Fills or empties the slot that is `i` steps after the head. -/
def write (i : Nat) (content : Option α) (r : Ring α) : Ring α :=
  { r with slots := r.slots.setIfInBounds (r.position i) content }

/-- The element with this index, if there is one. -/
def get? (r : Ring α) (i : Nat) : Option α := if i < r.size then r.read i else none

/-- The elements in order. -/
def toList (r : Ring α) : List α := (List.range r.size).filterMap r.get?

/-! ### Room -/

/-- The number of elements that there is room for.  Elements that take no memory
need none to be reserved. -/
def capacity [Element α] (r : Ring α) : Nat :=
  if Element.bytes α = 0 then maxSize else r.reserved

/-- The least number of elements that memory is reserved for at all: fewer small
ones are not worth a block of their own. -/
def leastReserved (α : Type) [Element α] : Nat :=
  if Element.bytes α = 1 then 8 else if Element.bytes α ≤ 1024 then 4 else 1

/-- Reserves memory for `additional` more elements.  More than that is asked for,
so that the next reservations are already met; an error reports the number of
elements that room was needed for. -/
def reserve [Element α] (memory : Allocator) (additional : Nat) : EStateM Error (Ring α) Unit :=
  fun r =>
    match sizeSum? r.size additional with
    | none => .error (.array (.overflow maxSize)) r
    | some required =>
      if Element.limit α < required then .error (.array (.overflow required)) r
      else if required ≤ r.capacity then .ok () r
      else
        let target := max (leastReserved α) (max required (2 * r.capacity))
        if target ≤ Element.limit α ∧ memory.grants (target * Element.bytes α) = true then
          .ok () { r with reserved := target }
        else .error (.array (.badAlloc required)) r

/-- Lays out more slots if all of them are in use, with the head at the first
one. -/
def spread [Element α] (r : Ring α) : Ring α :=
  if r.size < r.slots.size then r
  else
    let count := min (2 * r.size + 1) r.capacity
    { r with slots := Array.ofFn fun i : Fin count => r.get? i, head := 0 }

/-! ### The ends -/

/-- Adds an element to a ring with a free slot. -/
def placeBack (v : α) (r : Ring α) : Ring α :=
  { r.write r.size (some v) with size := r.size + 1 }

/-- Adds an element in front of the first one of a ring with a free slot. -/
def placeFront (v : α) (r : Ring α) : Ring α :=
  let head := if r.head = 0 then r.slots.size - 1 else r.head - 1
  write 0 (some v) { r with head := head, size := r.size + 1 }

/-- Adds an element at the back. -/
def pushBack [Element α] (memory : Allocator) (v : α) : EStateM Error (Ring α) Unit := fun r =>
  match reserve memory 1 r with
  | .ok _ r => .ok () (r.spread.placeBack v)
  | .error error r => .error error r

/-- Adds an element at the front. -/
def pushFront [Element α] (memory : Allocator) (v : α) : EStateM Error (Ring α) Unit := fun r =>
  match reserve memory 1 r with
  | .ok _ r => .ok () (r.spread.placeFront v)
  | .error error r => .error error r

/-- Adds elements at the back, one after the other. -/
def pushBackAll [Element α] (memory : Allocator) : List α → EStateM Error (Ring α) Unit
  | [], r => .ok () r
  | v :: vs, r =>
    match pushBack memory v r with
    | .ok _ r => pushBackAll memory vs r
    | .error error r => .error error r

/-- Takes the last element away. -/
def popBack? : StateM (Ring α) (Option α) := fun r =>
  if r.size = 0 then (none, r)
  else (r.read (r.size - 1), { r.write (r.size - 1) none with size := r.size - 1 })

/-- Takes the first element away; the next slot becomes the head. -/
def popFront? : StateM (Ring α) (Option α) := fun r =>
  if r.size = 0 then (none, r)
  else (r.read 0, { r.write 0 none with head := r.position 1, size := r.size - 1 })

/-! ### The middle -/

/-- Moves the `count` elements from `i` on one step to the back, the last one
first. -/
def openGap (i : Nat) : Nat → Ring α → Ring α
  | 0, r => r
  | count + 1, r => openGap i count (r.write (i + count + 1) (r.read (i + count)))

/-- Moves the `count` elements behind `i` one step to the front, the first one
first. -/
def closeGap (i : Nat) : Nat → Ring α → Ring α
  | 0, r => r
  | count + 1, r => closeGap (i + 1) count (r.write i (r.read (i + 1)))

/-- Adds an element in front of the one with index `i` to a ring with a free
slot. -/
def placeAt (i : Nat) (v : α) (r : Ring α) : Ring α :=
  { (openGap i (r.size - i) r).write i (some v) with size := r.size + 1 }

/-- Adds an element in front of the one with a checked index; the size itself is
allowed. -/
def insert [Element α] (memory : Allocator) (i : Nat) (v : α) :
    EStateM Error (Ring α) Unit := fun r =>
  if r.size < i then .error (.array (.outOfRange i r.size)) r
  else
    match reserve memory 1 r with
    | .ok _ r => .ok () (r.spread.placeAt i v)
    | .error error r => .error error r

/-- The ring without the element with index `i`, which is less than the size. -/
def removeAt (i : Nat) (r : Ring α) : Ring α :=
  { (closeGap i (r.size - 1 - i) r).write (r.size - 1) none with size := r.size - 1 }

/-- Takes away the element with a checked index. -/
def erase (i : Nat) : EStateM Error (Ring α) α := fun r =>
  match r.get? i with
  | none => .error (.array (.outOfRange i r.size)) r
  | some v => .ok v (r.removeAt i)

/-- Overwrites the element with this index, if there is one; the previous one is
handed back. -/
def set? (i : Nat) (v : α) : StateM (Ring α) (Option α) := fun r =>
  match r.get? i with
  | none => (none, r)
  | some previous => (some previous, r.write i (some v))

/-- Drops all elements.  Memory stays reserved. -/
def clear (r : Ring α) : Ring α := { empty with reserved := r.reserved }

/-- A ring with the elements of a list, added one by one. -/
def ofList [Element α] (memory : Allocator) (xs : List α) : Except Error (Ring α) :=
  match pushBackAll memory xs empty with
  | .ok _ r => .ok r
  | .error error _ => .error error

instance [Element α] : Sequence (Ring α) α where
  toList := toList
  size := size
  get? := get?
  front? r := r.get? 0
  back? r := if r.size = 0 then none else r.get? (r.size - 1)
  set? := set?
  pushBack := pushBack
  pushFront := pushFront
  popBack? := popBack?
  popFront? := popFront?
  insert := insert
  erase := erase
  clear := clear

end Ring

end Containers
