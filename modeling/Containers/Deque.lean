/-
Queues with two ends, over any kind of container.  What the tables make is left open: all
that is asked for is a sequence.
-/
import Containers.Table

namespace Containers

/-- The table that the container was asked from, and the container. -/
structure Deque (π σ : Type) where
  table : Table π
  backend : σ

namespace Deque

variable {π σ α β ε : Type}

section Making

variable [Maker π σ α]

/-- An empty deque. -/
def ofTable (memory : Allocator) (table : Table π) : Except Error (Deque π σ) := do
  return ⟨table, ← Maker.make memory table.plan⟩

/-- A deque with the elements of a list. -/
def ofListIn (memory : Allocator) (table : Table π) (xs : List α) :
    Except Error (Deque π σ) := do
  return ⟨table, ← Maker.makeWith memory xs table.plan⟩

end Making

/-- An empty deque over an array. -/
def new [Element α] (memory : Allocator) : Except Error (Deque Plan (Backend α)) :=
  ofTable memory .array

/-- A deque over an array, with the elements of a list. -/
def ofList [Element α] (memory : Allocator) (xs : List α) :
    Except Error (Deque Plan (Backend α)) :=
  ofListIn memory .array xs

/-- Changes the container. -/
def change (f : StateM σ β) : StateM (Deque π σ) β := fun ⟨table, backend⟩ =>
  let (reply, backend) := f backend
  (reply, ⟨table, backend⟩)

/-- Tries to change the container. -/
def attempt (f : EStateM ε σ β) : EStateM ε (Deque π σ) β := fun ⟨table, backend⟩ =>
  match f backend with
  | .ok reply backend => .ok reply ⟨table, backend⟩
  | .error error backend => .error error ⟨table, backend⟩

/-- Exchanges the containers of two deques, whose tables are asserted to agree.
Each deque keeps its own table. -/
def exchange : EStateM Violation (Deque π σ × Deque π σ) Unit := fun (d, e) =>
  if d.table.name ≠ e.table.name then
    .error (.differentNames d.table.name e.table.name) (d, e)
  else if !d.table.agrees e.table then
    .error (.differentTables d.table.name d.table.type e.table.type) (d, e)
  else .ok () (⟨d.table, e.backend⟩, ⟨e.table, d.backend⟩)

variable [Sequence σ α]

instance : Sequence (Deque π σ) α where
  toList d := Sequence.toList d.backend
  size d := Sequence.size d.backend
  get? d i := Sequence.get? d.backend i
  front? d := Sequence.front? d.backend
  back? d := Sequence.back? d.backend
  set? i v := change (Sequence.set? i v)
  pushBack memory v := attempt (Sequence.pushBack memory v)
  pushFront memory v := attempt (Sequence.pushFront memory v)
  popBack? := change Sequence.popBack?
  popFront? := change Sequence.popFront?
  insert memory i v := attempt (Sequence.insert memory i v)
  erase i := attempt (Sequence.erase i)
  clear d := { d with backend := Sequence.clear d.backend }

/-- The first element of a deque asserted to have one. -/
def front (d : Deque π σ) : Except Violation α :=
  match Sequence.front? d with
  | some v => .ok v
  | none => .error (.empty .front .deque)

/-- The last element of a deque asserted to have one. -/
def back (d : Deque π σ) : Except Violation α :=
  match Sequence.back? d with
  | some v => .ok v
  | none => .error (.empty .back .deque)

/-- Takes the first element away from a deque asserted to have one. -/
def popFront : EStateM Violation (Deque π σ) α := fun d =>
  match Sequence.popFront? d with
  | (some v, d) => .ok v d
  | (none, d) => .error (.empty .pop .deque) d

/-- Takes the last element away from a deque asserted to have one. -/
def popBack : EStateM Violation (Deque π σ) α := fun d =>
  match Sequence.popBack? d with
  | (some v, d) => .ok v d
  | (none, d) => .error (.empty .pop .deque) d

/-- An operation on deques. -/
inductive Command (π α : Type)
  | ofTable (table : Table π)
  | ofListIn (table : Table π) (xs : List α)
  | sequence (command : Sequence.Command α)
  | front
  | back
  | popFront
  | popBack
  | exchange

/-- What an operation does. -/
def Command.effect [Maker π σ α] (memory : Allocator) :
    Command π α → Effect (Deque π σ) (Reply α)
  | ofTable table => .make (Deque.ofTable memory table) .nothing
  | ofListIn table xs => .make (Deque.ofListIn memory table xs) .nothing
  | sequence command => command.effect memory
  | front => .lookAsserted fun d => d.front.map .element
  | back => .lookAsserted fun d => d.back.map .element
  | popFront => .asserted (.element <$> Deque.popFront)
  | popBack => .asserted (.element <$> Deque.popBack)
  | exchange => .jointAsserted (Reply.silently Deque.exchange)

end Deque

end Containers
