/-
What is asked of a container that keeps elements in a row: the operations that
every backend of a queue has.
-/
import Containers.Allocator
import Containers.Workspace

namespace Containers

/-- A container `σ` that keeps elements of type `α` in a row.  An operation that
is refused reports why; one that finds no element answers with none. -/
class Sequence (σ : Type) (α : outParam Type) where
  toList : σ → List α
  size : σ → Nat
  get? : σ → Nat → Option α
  front? : σ → Option α
  back? : σ → Option α
  /-- Overwrites the element with this index; the previous one is handed back. -/
  set? : Nat → α → StateM σ (Option α)
  pushBack : Allocator → α → EStateM Error σ Unit
  pushFront : Allocator → α → EStateM Error σ Unit
  popBack? : StateM σ (Option α)
  popFront? : StateM σ (Option α)
  /-- Adds an element in front of the one with this index; the size itself is
  allowed. -/
  insert : Allocator → Nat → α → EStateM Error σ Unit
  /-- Takes away the element with this index. -/
  erase : Nat → EStateM Error σ α
  clear : σ → σ

namespace Sequence

variable {σ α : Type} [Sequence σ α]

def isEmpty (s : σ) : Bool := size s == 0

/-- Overwrites the element with a checked index; the previous one is handed
back. -/
def set (i : Nat) (v : α) : EStateM Error σ α := fun s =>
  match set? i v s with
  | (some previous, s) => .ok previous s
  | (none, s) => .error (.array (.outOfRange i (size s))) s

/-- An operation on a sequence. -/
inductive Command (α : Type)
  | get? (i : Nat)
  | front?
  | back?
  | set? (i : Nat) (v : α)
  | set (i : Nat) (v : α)
  | pushBack (v : α)
  | pushFront (v : α)
  | popBack?
  | popFront?
  | insert (i : Nat) (v : α)
  | erase (i : Nat)
  | clear

/-- What an operation does. -/
def Command.effect (memory : Allocator) : Command α → Effect σ (Reply α)
  | get? i => .look fun s => .optional (Sequence.get? s i)
  | front? => .look fun s => .optional (Sequence.front? s)
  | back? => .look fun s => .optional (Sequence.back? s)
  | set? i v => .total (.optional <$> Sequence.set? i v)
  | set i v => .refusable (.element <$> Sequence.set i v)
  | pushBack v => .refusable (Reply.silently (Sequence.pushBack memory v))
  | pushFront v => .refusable (Reply.silently (Sequence.pushFront memory v))
  | popBack? => .total (.optional <$> Sequence.popBack?)
  | popFront? => .total (.optional <$> Sequence.popFront?)
  | insert i v => .refusable (Reply.silently (Sequence.insert memory i v))
  | erase i => .refusable (.element <$> Sequence.erase i)
  | clear => .total fun s => (.nothing, Sequence.clear s)

end Sequence

end Containers
