/-
Descriptions of errors and containers.
-/
import Containers.Held
import Containers.PriorityQueue
import Containers.Queue
import Containers.SortedMap
import Containers.Stack
import Containers.Text.Document

namespace Containers

instance : Describe ArrayError where
  describe
    | .badAlloc requested => .record "BadAlloc" [("requested", describe requested)]
    | .outOfRange index size =>
      .record "OutOfRange" [("index", describe index), ("length", describe size)]
    | .overflow requested => .record "Overflow" [("requested", describe requested)]
    | .invalidPolicy reason => .record "InvalidConfiguration" [("reason", describe reason)]

instance : Describe Error where
  describe
    | .array error => .variant "Array" [describe error]
    | .alreadyExists => .text "AlreadyExists"
    | .notFound => .text "NotFound"

instance : Describe Int64 := ⟨fun n => describe n.toInt⟩

instance {α : Type} [Describe α] : Describe (Held α) where
  describe
    | .owned v => .variant "Owned" [describe v]
    | .borrowed v => .variant "Borrowed" [describe v]

namespace Document

/-- A queue of some kind: the name of what is behind it, and its size. -/
def ofQueue (name backend : String) (size : Nat) : Document :=
  record name [("backend", quoted backend), ("len", describe size)]

end Document

variable {π σ α κ ν : Type} [Element α] [Sequence σ α] [Element (κ × ν)]

instance [Describe α] : Describe (DynArray α) := ⟨fun a => describe a.toList⟩

instance [Describe α] : Describe (Chain α) := ⟨fun c => describe c.nodes⟩

instance [Describe α] : Describe (Ring α) := ⟨fun r => describe r.toList⟩

instance [Describe α] : Describe (Backend α) := ⟨fun b => describe (Sequence.toList b)⟩

instance : Describe (Deque π σ) := ⟨fun d => .ofQueue "Deque" d.table.name (Sequence.size d)⟩

instance : Describe (Stack π σ) := ⟨fun s => .ofQueue "Stack" s.deque.table.name s.size⟩

instance : Describe (Queue π σ) := ⟨fun q => .ofQueue "Queue" q.deque.table.name q.size⟩

instance [Describe α] : Describe (PriorityQueue α) :=
  ⟨fun q => .record "PriorityQueue" [("heap", describe q.heap)]⟩

instance [Describe κ] [Describe ν] : Describe (SortedMap κ ν) :=
  ⟨fun m => .table (m.toList.map fun (key, value) => (describe key, describe value))⟩

end Containers
