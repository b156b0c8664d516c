/-
Priority queues: a greatest element is taken away first.
-/
import Containers.DynArray.Change
import Containers.Heap
import Containers.Workspace

namespace Containers

/-- A heap in an array, and when an element is less than another one. -/
structure PriorityQueue (α : Type) [Element α] where
  heap : DynArray α
  less : α → α → Bool

namespace PriorityQueue

variable {α : Type} [Element α]

/-- An empty queue with the given predicate. -/
def new (memory : Allocator) (less : α → α → Bool) : Except Error (PriorityQueue α) :=
  match DynArray.new memory with
  | .ok heap => .ok ⟨heap, less⟩
  | .error error => .error (.array error)

/-- The elements in the order in which the heap keeps them. -/
def toList (q : PriorityQueue α) : List α := q.heap.toList

def size (q : PriorityQueue α) : Nat := q.heap.size

def isEmpty (q : PriorityQueue α) : Bool := q.heap.isEmpty

def capacity (q : PriorityQueue α) : Nat := q.heap.capacity

/-- Adds an element at the end of the heap and lets it rise. -/
def push (memory : Allocator) (v : α) :
    EStateM Error (PriorityQueue α) Unit := fun ⟨heap, less⟩ =>
  match DynArray.pushBack memory v heap with
  | .ok _ heap => .ok () ⟨heap.rewrite (Heap.raiseLast less), less⟩
  | .error error heap => .error (.array error) ⟨heap, less⟩

/-- Adds elements, one after the other. -/
def pushAll (memory : Allocator) : List α → EStateM Error (PriorityQueue α) Unit
  | [], q => .ok () q
  | v :: vs, q =>
    match push memory v q with
    | .ok _ q => pushAll memory vs q
    | .error error q => .error error q

/-- A queue with the elements of a list, added one by one. -/
def ofList (memory : Allocator) (less : α → α → Bool) (xs : List α) :
    Except Error (PriorityQueue α) := do
  match pushAll memory xs (← new memory less) with
  | .ok _ q => .ok q
  | .error error _ => .error error

def top? (q : PriorityQueue α) : Option α := q.heap.front?

/-- A greatest element of a queue asserted to have one. -/
def top (q : PriorityQueue α) : Except Violation α :=
  match q.top? with
  | some v => .ok v
  | none => .error (.empty .top .priorityQueue)

/-- Takes the first element of the heap away.  The last element takes its place
and sinks. -/
def pop? : StateM (PriorityQueue α) (Option α) := fun ⟨heap, less⟩ =>
  match DynArray.popBack? (heap.rewrite Heap.swapEnds) with
  | (some v, heap) => (some v, ⟨heap.rewrite (Heap.sinkFirst less), less⟩)
  | (none, heap) => (none, ⟨heap, less⟩)

/-- Takes a greatest element away from a queue asserted to have one. -/
def pop : EStateM Violation (PriorityQueue α) α := fun q =>
  match pop? q with
  | (some v, q) => .ok v q
  | (none, q) => .error (.empty .pop .priorityQueue) q

/-- Takes elements away until none is left, at most so many times. -/
def popMany : Nat → StateM (PriorityQueue α) (List α)
  | 0, q => ([], q)
  | n + 1, q =>
    match pop? q with
    | (some v, q) => let (vs, q) := popMany n q; (v :: vs, q)
    | (none, q) => ([], q)

/-- Takes all elements away. -/
def drain : StateM (PriorityQueue α) (List α) := fun q => let n := q.size; popMany n q

def clear (q : PriorityQueue α) : PriorityQueue α := { q with heap := q.heap.clear }

/-- An operation on priority queues. -/
inductive Command (α : Type)
  | new (less : α → α → Bool)
  | ofList (less : α → α → Bool) (xs : List α)
  | push (v : α)
  | pushAll (vs : List α)
  | top?
  | top
  | pop?
  | pop
  | drain
  | clear
  | exchange

/-- What an operation does. -/
def Command.effect (memory : Allocator) : Command α → Effect (PriorityQueue α) (Reply α)
  | new less => .make (PriorityQueue.new memory less) .nothing
  | ofList less xs => .make (PriorityQueue.ofList memory less xs) .nothing
  | push v => .refusable (Reply.silently (PriorityQueue.push memory v))
  | pushAll vs => .refusable (Reply.silently (PriorityQueue.pushAll memory vs))
  | top? => .look fun q => .optional q.top?
  | top => .lookAsserted fun q => q.top.map .element
  | pop? => .total (.optional <$> PriorityQueue.pop?)
  | pop => .asserted (.element <$> PriorityQueue.pop)
  | drain => .total (.elements <$> PriorityQueue.drain)
  | clear => .total fun q => (.nothing, q.clear)
  | exchange => .jointTotal fun (q, r) => (.nothing, (r, q))

end PriorityQueue

end Containers
