/-
Values that are owned, or borrowed from someone else.  Both read the same.
-/
import Containers.Storage

namespace Containers

/-- A value with a note on who it belongs to. -/
inductive Held (α : Type)
  | owned (value : α)
  | borrowed (value : α)

namespace Held

variable {α : Type}

/-- The value, whoever it belongs to. -/
def value : Held α → α
  | owned v => v
  | borrowed v => v

def isOwned : Held α → Bool
  | owned _ => true
  | borrowed _ => false

def isBorrowed : Held α → Bool
  | owned _ => false
  | borrowed _ => true

/-- A value of one's own: the value itself, or a copy of a borrowed one. -/
def toOwned : Held α → α := value

/-- Only the values are compared. -/
instance [BEq α] : BEq (Held α) := ⟨fun h k => h.value == k.value⟩

/-- A held value takes an address, a size and a note. -/
instance : Element (Held α) := Element.ofBytes 24

end Held

end Containers
