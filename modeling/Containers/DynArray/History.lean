/-
Repeating an operation, and writing down when the capacity changes.
-/
import Containers.DynArray.Change

namespace Containers

namespace DynArray

/-- Why a repetition came to an early end. -/
inductive Stop
  | empty
  | refused (error : ArrayError)

/-- The sizes and capacities right after each change of the capacity, and why the
repetition came to an early end. -/
structure History where
  changes : List (Nat × Nat)
  stop : Option Stop

variable {α : Type} [Element α]

/-- Repeats a step until it stops, at most so many times.  The changes so far are
given with the last one first. -/
def repeatFrom (changes : List (Nat × Nat)) (step : DynArray α → Option Stop × DynArray α) :
    Nat → DynArray α → History × DynArray α
  | 0, a => (⟨changes.reverse, none⟩, a)
  | n + 1, a =>
    let before := a.capacity
    match step a with
    | (some stop, a) => (⟨changes.reverse, some stop⟩, a)
    | (none, a) =>
      if a.capacity = before then repeatFrom changes step n a
      else repeatFrom ((a.size, a.capacity) :: changes) step n a

/-- Repeats a step until it stops, at most so many times. -/
def repeatedly (step : DynArray α → Option Stop × DynArray α) :
    Nat → DynArray α → History × DynArray α :=
  repeatFrom [] step

/-- Adds an element at the back, again and again. -/
def pushBackMany (memory : Allocator) (v : α) : Nat → DynArray α → History × DynArray α :=
  repeatedly fun a =>
    match pushBack memory v a with
    | .ok _ a => (none, a)
    | .error error a => (some (.refused error), a)

/-- Takes the last element away, again and again. -/
def popBackMany : Nat → DynArray α → History × DynArray α :=
  repeatedly fun a =>
    match popBack? a with
    | (some _, a) => (none, a)
    | (none, a) => (some .empty, a)

end DynArray

end Containers
