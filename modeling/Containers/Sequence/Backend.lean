/-
The containers that can stand behind a queue, and the tables that make them.
-/
import Containers.DynArray.Change
import Containers.Sequence.Chain
import Containers.Sequence.Ring

namespace Containers

namespace DynArray

variable {α : Type} [Element α]

/-- Adds an element in front of the one with a checked index; the size itself is
allowed. -/
def insertChecked (memory : Allocator) (i : Nat) (v : α) : EStateM ArrayError (DynArray α) Unit :=
  fun a =>
    if a.size < i then .error (.outOfRange i a.size) a
    else insertAt memory i v a

instance : Sequence (DynArray α) α where
  toList := toList
  size := size
  get? := get?
  front? := front?
  back? := back?
  set? := set?
  pushBack memory v := (pushBack memory v).adaptExcept .array
  pushFront memory v := (pushFront memory v).adaptExcept .array
  popBack? := popBack?
  popFront? := popFront?
  insert memory i v := (insertChecked memory i v).adaptExcept .array
  erase i := (removeChecked i).adaptExcept .array
  clear := clear

end DynArray

/-- One of the containers that keep elements in a row. -/
inductive Backend (α : Type) [Element α]
  | array (array : DynArray α)
  | chain (chain : Chain α)
  | ring (ring : Ring α)

namespace Backend

variable {α β ε : Type} [Element α]

/-- Looks at the container, whichever it is. -/
def look (f : (σ : Type) → [Sequence σ α] → σ → β) : Backend α → β
  | array a => f _ a
  | chain c => f _ c
  | ring r => f _ r

/-- Changes the container, whichever it is. -/
def change (f : (σ : Type) → [Sequence σ α] → StateM σ β) : StateM (Backend α) β
  | array a => let (reply, a) := f _ a; (reply, array a)
  | chain c => let (reply, c) := f _ c; (reply, chain c)
  | ring r => let (reply, r) := f _ r; (reply, ring r)

/-- Tries to change the container, whichever it is. -/
def attempt (f : (σ : Type) → [Sequence σ α] → EStateM ε σ β) : EStateM ε (Backend α) β
  | array a =>
    match f _ a with
    | .ok reply a => .ok reply (array a)
    | .error error a => .error error (array a)
  | chain c =>
    match f _ c with
    | .ok reply c => .ok reply (chain c)
    | .error error c => .error error (chain c)
  | ring r =>
    match f _ r with
    | .ok reply r => .ok reply (ring r)
    | .error error r => .error error (ring r)

instance : Sequence (Backend α) α where
  toList := look fun _ => Sequence.toList
  size := look fun _ => Sequence.size
  get? b i := b.look fun _ _ s => Sequence.get? s i
  front? := look fun _ => Sequence.front?
  back? := look fun _ => Sequence.back?
  set? i v := change fun _ => Sequence.set? i v
  pushBack memory v := attempt fun _ => Sequence.pushBack memory v
  pushFront memory v := attempt fun _ => Sequence.pushFront memory v
  popBack? := change fun _ => Sequence.popBack?
  popFront? := change fun _ => Sequence.popFront?
  insert memory i v := attempt fun _ => Sequence.insert memory i v
  erase i := attempt fun _ => Sequence.erase i
  clear b := (b.change fun _ _ s => ((), Sequence.clear s)).2

end Backend

end Containers
