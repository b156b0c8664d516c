/-
What can go wrong.  An error reports a request that cannot be met; a violation
is a call outside the conditions under which an operation may be used.
-/
namespace Containers

/-- A request that an array cannot meet. -/
inductive ArrayError
  /-- The allocator refused a block for this many elements. -/
  | badAlloc (requested : Nat)
  /-- There is no element with this index. -/
  | outOfRange (index size : Nat)
  /-- This many elements cannot be addressed. -/
  | overflow (requested : Nat)
  /-- The numbers of a policy were rejected. -/
  | invalidPolicy (reason : String)
deriving DecidableEq

/-- A request that a sequence, a queue or a map cannot meet. -/
inductive Error
  | array (error : ArrayError)
  | alreadyExists
  | notFound
deriving DecidableEq

/-- The flat code under which every result can be reported. -/
inductive Status
  | ok
  | badAlloc
  | outOfRange
  | overflow
  | alreadyExists
  | notFound
  | unknown
deriving DecidableEq

/-- The kinds of container that name themselves in a violation. -/
inductive Kind
  | array
  | deque
  | stack
  | queue
  | priorityQueue
deriving DecidableEq

/-- The calls that need an element to be there. -/
inductive Access
  | front
  | back
  | top
  | pop
deriving DecidableEq

/-- A broken precondition. -/
inductive Violation
  /-- There is no element with this index. -/
  | index (index size : Nat)
  /-- There is no place with this index to insert at. -/
  | insertion (index size : Nat)
  /-- The container is empty. -/
  | empty (access : Access) (kind : Kind)
  /-- The containers are built from backends of different names. -/
  | differentNames (left right : String)
  /-- The containers are built by different tables of one name. -/
  | differentTables (name leftType rightType : String)
deriving DecidableEq

/-- Why an operation did not take place. -/
inductive Failure
  | refused (error : Error)
  | violated (violation : Violation)
deriving DecidableEq

namespace ArrayError

def message : ArrayError → String
  | badAlloc requested => s!"Allocation failed: could not reserve {requested} slots"
  | outOfRange index size =>
    s!"Index out of range: index {index} is beyond array length {size}"
  | overflow requested => s!"Capacity overflow: {requested} slots cannot be addressed"
  | invalidPolicy reason => s!"Invalid growth policy: {reason}"

/-- A rejected policy has no code of its own. -/
def status : ArrayError → Status
  | badAlloc _ => .badAlloc
  | outOfRange _ _ => .outOfRange
  | overflow _ => .overflow
  | invalidPolicy _ => .unknown

end ArrayError

namespace Error

def message : Error → String
  | array error => error.message
  | alreadyExists => "Key already exists"
  | notFound => "Key not found"

def status : Error → Status
  | array error => error.status
  | alreadyExists => .alreadyExists
  | notFound => .notFound

end Error

namespace Status

/-- The code of a result. -/
def ofResult {α : Type _} : Except Error α → Status
  | .ok _ => .ok
  | .error error => error.status

def isOk (status : Status) : Bool := status == .ok

def name : Status → String
  | ok => "Ok"
  | badAlloc => "BadAlloc"
  | outOfRange => "OutOfRange"
  | overflow => "Overflow"
  | alreadyExists => "AlreadyExists"
  | notFound => "NotFound"
  | unknown => "Unknown"

end Status

def Kind.name : Kind → String
  | array => "array"
  | deque => "deque"
  | stack => "stack"
  | queue => "queue"
  | priorityQueue => "priority queue"

def Access.name : Access → String
  | front => "front"
  | back => "back"
  | top => "top"
  | pop => "pop"

def Violation.message : Violation → String
  | index i size => s!"Index {i} out of bounds for array of length {size}"
  | insertion i size => s!"Insertion index {i} out of bounds for array of length {size}"
  | empty .pop kind => s!"Cannot pop from empty {kind.name}"
  | empty access kind => s!"{access.name}() called on empty {kind.name}"
  | differentNames left right => s!"Cannot swap a {left} deque with a {right} deque"
  | differentTables name left right =>
    s!"Cannot swap deques built by different {name} tables: {left} and {right}"

end Containers
