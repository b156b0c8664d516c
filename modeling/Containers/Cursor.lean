/-
Reading a store from both ends.  The two ends share what is left between them, so
no element is read twice.
-/
import Containers.Storage

namespace Containers

/-- A store and the part of it, from `front` up to `back`, that is still to be
read. -/
structure Cursor (σ : Type) where
  store : σ
  front : Nat
  back : Nat

namespace Cursor

variable {σ α : Type} [Storage σ α]

/-- All of a store is still to be read. -/
def ofStore (store : σ) : Cursor σ := ⟨store, 0, Storage.size store⟩

/-- The number of elements that are still to be read. -/
def remaining (c : Cursor σ) : Nat := c.back - c.front

/-- The next element from the front. -/
def next : StateM (Cursor σ) (Option α) := fun c =>
  if c.front < c.back then (Storage.get? c.store c.front, { c with front := c.front + 1 })
  else (none, c)

/-- The next element from the back. -/
def nextBack : StateM (Cursor σ) (Option α) := fun c =>
  if c.front < c.back then (Storage.get? c.store (c.back - 1), { c with back := c.back - 1 })
  else (none, c)

/-- What can be asked of a cursor. -/
inductive Move
  | next
  | nextBack
  | remaining
  | bounds
deriving DecidableEq

/-- The answer to a move.  There need not be an upper bound on the number of elements to
come. -/
inductive Reply (α : Type)
  | element (element : Option α)
  | remaining (count : Nat)
  | bounds (lower : Nat) (upper : Option Nat)

/-- One move.  The bounds on the number of elements to come are exact. -/
def move (m : Move) : StateM (Cursor σ) (Reply α) := fun c =>
  match m with
  | .next => let (element, c) := next c; (.element element, c)
  | .nextBack => let (element, c) := nextBack c; (.element element, c)
  | .remaining => (.remaining c.remaining, c)
  | .bounds => (.bounds c.remaining (some c.remaining), c)

/-- The answers to a list of moves, one after the other. -/
def moves (c : Cursor σ) : List Move → List (Reply α)
  | [] => []
  | m :: ms => let (reply, c) := move m c; reply :: c.moves ms

end Cursor

end Containers
