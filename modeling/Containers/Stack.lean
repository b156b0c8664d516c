/-
Stacks: what was added last is taken away first.  The top of a stack is the back
of a deque.
-/
import Containers.Deque

namespace Containers

/-- A stack, with its top at the back. -/
structure Stack (π σ : Type) where
  deque : Deque π σ

namespace Stack

variable {π σ α : Type}

section Making

variable [Maker π σ α]

/-- An empty stack. -/
def ofTable (memory : Allocator) (table : Table π) : Except Error (Stack π σ) := do
  return ⟨← Deque.ofTable memory table⟩

/-- A stack with the elements of a list, the last one on top. -/
def ofListIn (memory : Allocator) (table : Table π) (xs : List α) :
    Except Error (Stack π σ) := do
  return ⟨← Deque.ofListIn memory table xs⟩

end Making

/-- An empty stack over an array. -/
def new [Element α] (memory : Allocator) : Except Error (Stack Plan (Backend α)) :=
  ofTable memory .array

/-- A stack over an array, with the elements of a list. -/
def ofList [Element α] (memory : Allocator) (xs : List α) :
    Except Error (Stack Plan (Backend α)) :=
  ofListIn memory .array xs

variable [Sequence σ α]

/-- The elements, with the top at the end. -/
def toList (s : Stack π σ) : List α := Sequence.toList s.deque

def size (s : Stack π σ) : Nat := Sequence.size s.deque

def isEmpty (s : Stack π σ) : Bool := Sequence.isEmpty s.deque

/-- Puts an element on top. -/
def push (memory : Allocator) (v : α) : EStateM Error (Stack π σ) Unit := fun ⟨deque⟩ =>
  match Sequence.pushBack memory v deque with
  | .ok _ deque => .ok () ⟨deque⟩
  | .error error deque => .error error ⟨deque⟩

def top? (s : Stack π σ) : Option α := Sequence.back? s.deque

/-- The top of a stack asserted to have one. -/
def top (s : Stack π σ) : Except Violation α :=
  match s.top? with
  | some v => .ok v
  | none => .error (.empty .top .stack)

/-- Takes the top away. -/
def pop? : StateM (Stack π σ) (Option α) := fun ⟨deque⟩ =>
  let (v, deque) := Sequence.popBack? deque
  (v, ⟨deque⟩)

/-- Takes the top away from a stack asserted to have one. -/
def pop : EStateM Violation (Stack π σ) α := fun s =>
  match pop? s with
  | (some v, s) => .ok v s
  | (none, s) => .error (.empty .pop .stack) s

def clear (s : Stack π σ) : Stack π σ := ⟨Sequence.clear s.deque⟩

/-- Exchanges the containers of two stacks, whose tables are asserted to agree. -/
def exchange : EStateM Violation (Stack π σ × Stack π σ) Unit := fun (⟨d⟩, ⟨e⟩) =>
  match Deque.exchange (d, e) with
  | .ok _ (d, e) => .ok () (⟨d⟩, ⟨e⟩)
  | .error violation (d, e) => .error violation (⟨d⟩, ⟨e⟩)

/-- An operation on stacks. -/
inductive Command (π α : Type)
  | ofTable (table : Table π)
  | ofListIn (table : Table π) (xs : List α)
  | push (v : α)
  | top?
  | top
  | pop?
  | pop
  | clear
  | exchange

/-- What an operation does. -/
def Command.effect [Maker π σ α] (memory : Allocator) :
    Command π α → Effect (Stack π σ) (Reply α)
  | ofTable table => .make (Stack.ofTable memory table) .nothing
  | ofListIn table xs => .make (Stack.ofListIn memory table xs) .nothing
  | push v => .refusable (Reply.silently (Stack.push memory v))
  | top? => .look fun s => .optional s.top?
  | top => .lookAsserted fun s => s.top.map .element
  | pop? => .total (.optional <$> Stack.pop?)
  | pop => .asserted (.element <$> Stack.pop)
  | clear => .total fun s => (.nothing, s.clear)
  | exchange => .jointAsserted (Reply.silently Stack.exchange)

end Stack

end Containers
