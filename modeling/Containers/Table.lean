/-
Tables: how the container behind a queue is named and made.
-/
import Containers.Sequence.Backend

namespace Containers

/-- Plans `π` by which containers `σ` are made. -/
class Maker (π σ : Type) (α : outParam Type) where
  /-- Makes an empty container. -/
  make : Allocator → π → Except Error σ
  /-- Makes a container with the elements of a list. -/
  makeWith : Allocator → List α → π → Except Error σ

/-- A name for messages, a second name that tells tables of one name apart, and
what the table makes. -/
structure Table (π : Type) where
  name : String
  type : String
  plan : π
deriving DecidableEq

namespace Table

/-- The tables make the same kind of container, as far as their names tell. -/
def agrees {π : Type} (t u : Table π) : Bool := t.name == u.name && t.type == u.type

end Table

/-- What the tables for the known backends make. -/
inductive Plan
  /-- An array; the numbers of its policy are checked when it is made. -/
  | array (parameters : Policy.Parameters)
  | chain
  | ring
deriving DecidableEq

namespace Plan

variable {α : Type} [Element α]

/-- Makes an empty container. -/
def make (memory : Allocator) : Plan → Except Error (Backend α)
  | array parameters => ((DynArray.ofParameters memory parameters).map .array).mapError .array
  | chain => .ok (.chain .empty)
  | ring => .ok (.ring .empty)

/-- Makes a container with the elements of a list. -/
def makeWith (memory : Allocator) (xs : List α) : Plan → Except Error (Backend α)
  | array parameters =>
    let made := do
      DynArray.built (DynArray.pushBackAll memory xs) (← DynArray.ofParameters memory parameters)
    (made.map .array).mapError .array
  | chain => .ok (.chain (.ofList xs))
  | ring => (Ring.ofList memory xs).map .ring

instance : Maker Plan (Backend α) α := ⟨make, makeWith⟩

end Plan

namespace Table

/-- Arrays with the standard policy. -/
def array : Table Plan :=
  ⟨"grow_array", "seqadapt::table::GrowArrayTable", .array Policy.standard.toParameters⟩

def chain : Table Plan := ⟨"linked_list", "seqadapt::table::LinkedListTable", .chain⟩

def ring : Table Plan := ⟨"ring_buffer", "seqadapt::table::RingBufferTable", .ring⟩

end Table

end Containers
