/-
Maps from keys to values, kept as an array of entries in ascending order of their
keys.  Two keys are the same key when neither is less than the other one.
-/
import Containers.DynArray.Change
import Containers.Search
import Containers.Workspace

namespace Containers

/-- Entries in ascending order, and when a key is less than another one.  An entry may take
more bytes than its key and its value. -/
structure SortedMap (κ ν : Type) [Element (κ × ν)] where
  entries : DynArray (κ × ν)
  less : κ → κ → Bool

namespace SortedMap

variable {κ ν : Type} [Element (κ × ν)]

/-- Where a key is, or where it would be. -/
inductive Spot
  | taken (index : Nat)
  | free (index : Nat)
deriving DecidableEq

/-- An empty map with the given predicate. -/
def new (memory : Allocator) (less : κ → κ → Bool) : Except Error (SortedMap κ ν) :=
  match DynArray.new memory with
  | .ok entries => .ok ⟨entries, less⟩
  | .error error => .error (.array error)

/-- The entries in order. -/
def toList (m : SortedMap κ ν) : List (κ × ν) := m.entries.toList

def size (m : SortedMap κ ν) : Nat := m.entries.size

def isEmpty (m : SortedMap κ ν) : Bool := m.entries.isEmpty

/-- The entry with this index has a key that is less than the given one. -/
def isBefore (m : SortedMap κ ν) (key : κ) (i : Nat) : Bool :=
  match m.entries.get? i with
  | some (candidate, _) => m.less candidate key
  | none => false

/-- Searches for a key among the ascending keys of the entries. -/
def search (m : SortedMap κ ν) (key : κ) : Spot :=
  let i := partitionPoint (m.isBefore key) 0 m.size
  match m.entries.get? i with
  | some (candidate, _) => if m.less key candidate then .free i else .taken i
  | none => .free i

/-! ### Looking up -/

/-- The entry for a key. -/
def entry? (m : SortedMap κ ν) (key : κ) : Option (κ × ν) :=
  match m.search key with
  | .taken i => m.entries.get? i
  | .free _ => none

/-- The value for a key. -/
def get? (m : SortedMap κ ν) (key : κ) : Option ν := (m.entry? key).map Prod.snd

/-- The value for a key that should be there. -/
def find (m : SortedMap κ ν) (key : κ) : Except Error ν :=
  match m.get? key with
  | some value => .ok value
  | none => .error .notFound

def contains (m : SortedMap κ ν) (key : κ) : Bool :=
  match m.search key with
  | .taken _ => true
  | .free _ => false

/-- Reads the entries from both ends. -/
def cursor (m : SortedMap κ ν) : Cursor (Element.Store (κ × ν)) := m.entries.cursor

/-! ### Changing -/

/-- Overwrites the value for a key, if there is one; the previous value is handed
back. -/
def set? (key : κ) (value : ν) : StateM (SortedMap κ ν) (Option ν) := fun m =>
  match m.search key with
  | .taken i =>
    match m.entries.get? i with
    | some (stored, previous) =>
      (some previous, { m with entries := m.entries.put i (stored, value) })
    | none => (none, m)
  | .free _ => (none, m)

/-- Adds an entry at an index that is asserted to be at most the size. -/
def insertAt (memory : Allocator) (i : Nat) (entry : κ × ν) :
    EStateM Failure (SortedMap κ ν) Unit := fun ⟨entries, less⟩ =>
  match DynArray.insert memory i entry entries with
  | .ok _ entries => .ok () ⟨entries, less⟩
  | .error failure entries => .error failure ⟨entries, less⟩

/-- Adds an entry with a new key. -/
def insert (memory : Allocator) (key : κ) (value : ν) :
    EStateM Failure (SortedMap κ ν) Unit := fun m =>
  match m.search key with
  | .taken _ => .error (.refused .alreadyExists) m
  | .free i => insertAt memory i (key, value) m

/-- Overwrites the value for a key, or adds an entry if the key is new.  The
stored key stays; the previous value is handed back. -/
def insertOrAssign (memory : Allocator) (key : κ) (value : ν) :
    EStateM Failure (SortedMap κ ν) (Option ν) := fun m =>
  match m.search key with
  | .taken i =>
    match m.entries.get i with
    | .ok (stored, previous) =>
      .ok (some previous) { m with entries := m.entries.put i (stored, value) }
    | .error violation => .error (.violated violation) m
  | .free i =>
    match insertAt memory i (key, value) m with
    | .ok _ m => .ok none m
    | .error failure m => .error failure m

/-- Takes away the entry for a key that should be there. -/
def remove (key : κ) : EStateM Failure (SortedMap κ ν) ν := fun m =>
  match m.search key with
  | .taken i =>
    match m with
    | ⟨entries, less⟩ =>
      match DynArray.remove i entries with
      | .ok (_, value) entries => .ok value ⟨entries, less⟩
      | .error violation entries => .error (.violated violation) ⟨entries, less⟩
  | .free _ => .error (.refused .notFound) m

def clear (m : SortedMap κ ν) : SortedMap κ ν := { m with entries := m.entries.clear }

/-! ### Operations as data -/

/-- An operation on maps. -/
inductive Command (κ ν : Type)
  | new (less : κ → κ → Bool)
  | insert (key : κ) (value : ν)
  | insertOrAssign (key : κ) (value : ν)
  | set? (key : κ) (value : ν)
  | get? (key : κ)
  | find (key : κ)
  | remove (key : κ)
  | clear
  | exchange

/-- What an operation does. -/
def Command.effect (memory : Allocator) : Command κ ν → Effect (SortedMap κ ν) (Reply ν)
  | new less => .make (SortedMap.new memory less) .nothing
  | insert key value => .failing (Reply.silently (SortedMap.insert memory key value))
  | insertOrAssign key value => .failing (.optional <$> SortedMap.insertOrAssign memory key value)
  | set? key value => .total (.optional <$> SortedMap.set? key value)
  | get? key => .look fun m => .optional (m.get? key)
  | find key => .lookChecked fun m => (m.find key).map .element
  | remove key => .failing (.element <$> SortedMap.remove key)
  | clear => .total fun m => (.nothing, m.clear)
  | exchange => .jointTotal fun (m, n) => (.nothing, (n, m))

/-- Reads the entries of a map that is looked at. -/
def readInPlace (moves : List Cursor.Move) :
    Effect (SortedMap κ ν) (List (Cursor.Reply (κ × ν))) :=
  .look fun m => m.cursor.moves moves

end SortedMap

end Containers
