/-
Queues: what was added first is taken away first.  Elements enter at the back of a
deque and leave at its front.
-/
import Containers.Deque

namespace Containers

/-- A queue, with the element to leave next at the front. -/
structure Queue (π σ : Type) where
  deque : Deque π σ

namespace Queue

variable {π σ α : Type}

section Making

variable [Maker π σ α]

/-- An empty queue. -/
def ofTable (memory : Allocator) (table : Table π) : Except Error (Queue π σ) := do
  return ⟨← Deque.ofTable memory table⟩

/-- A queue with the elements of a list, the first one to leave first. -/
def ofListIn (memory : Allocator) (table : Table π) (xs : List α) :
    Except Error (Queue π σ) := do
  return ⟨← Deque.ofListIn memory table xs⟩

end Making

/-- An empty queue over an array. -/
def new [Element α] (memory : Allocator) : Except Error (Queue Plan (Backend α)) :=
  ofTable memory .array

/-- A queue over an array, with the elements of a list. -/
def ofList [Element α] (memory : Allocator) (xs : List α) :
    Except Error (Queue Plan (Backend α)) :=
  ofListIn memory .array xs

variable [Sequence σ α]

/-- The elements, in the order in which they will leave. -/
def toList (q : Queue π σ) : List α := Sequence.toList q.deque

def size (q : Queue π σ) : Nat := Sequence.size q.deque

def isEmpty (q : Queue π σ) : Bool := Sequence.isEmpty q.deque

/-- Lets an element enter. -/
def push (memory : Allocator) (v : α) : EStateM Error (Queue π σ) Unit := fun ⟨deque⟩ =>
  match Sequence.pushBack memory v deque with
  | .ok _ deque => .ok () ⟨deque⟩
  | .error error deque => .error error ⟨deque⟩

def front? (q : Queue π σ) : Option α := Sequence.front? q.deque

def back? (q : Queue π σ) : Option α := Sequence.back? q.deque

/-- The element to leave next, of a queue asserted to have one. -/
def front (q : Queue π σ) : Except Violation α :=
  match q.front? with
  | some v => .ok v
  | none => .error (.empty .front .queue)

/-- The element that entered last, of a queue asserted to have one. -/
def back (q : Queue π σ) : Except Violation α :=
  match q.back? with
  | some v => .ok v
  | none => .error (.empty .back .queue)

/-- Lets the first element leave. -/
def pop? : StateM (Queue π σ) (Option α) := fun ⟨deque⟩ =>
  let (v, deque) := Sequence.popFront? deque
  (v, ⟨deque⟩)

/-- Lets the first element leave a queue asserted to have one. -/
def pop : EStateM Violation (Queue π σ) α := fun q =>
  match pop? q with
  | (some v, q) => .ok v q
  | (none, q) => .error (.empty .pop .queue) q

def clear (q : Queue π σ) : Queue π σ := ⟨Sequence.clear q.deque⟩

/-- Exchanges the containers of two queues, whose tables are asserted to agree. -/
def exchange : EStateM Violation (Queue π σ × Queue π σ) Unit := fun (⟨d⟩, ⟨e⟩) =>
  match Deque.exchange (d, e) with
  | .ok _ (d, e) => .ok () (⟨d⟩, ⟨e⟩)
  | .error violation (d, e) => .error violation (⟨d⟩, ⟨e⟩)

/-- An operation on queues. -/
inductive Command (π α : Type)
  | ofTable (table : Table π)
  | ofListIn (table : Table π) (xs : List α)
  | push (v : α)
  | front?
  | back?
  | front
  | back
  | pop?
  | pop
  | clear
  | exchange

/-- What an operation does. -/
def Command.effect [Maker π σ α] (memory : Allocator) :
    Command π α → Effect (Queue π σ) (Reply α)
  | ofTable table => .make (Queue.ofTable memory table) .nothing
  | ofListIn table xs => .make (Queue.ofListIn memory table xs) .nothing
  | push v => .refusable (Reply.silently (Queue.push memory v))
  | front? => .look fun q => .optional q.front?
  | back? => .look fun q => .optional q.back?
  | front => .lookAsserted fun q => q.front.map .element
  | back => .lookAsserted fun q => q.back.map .element
  | pop? => .total (.optional <$> Queue.pop?)
  | pop => .asserted (.element <$> Queue.pop)
  | clear => .total fun q => (.nothing, q.clear)
  | exchange => .jointAsserted (Reply.silently Queue.exchange)

end Queue

end Containers
