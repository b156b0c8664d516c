/-
Linked nodes, one for each element.  Nodes are made one at a time and never moved,
so adding an element is never refused.  Work in the middle splits the chain and
joins the parts again.
-/
import Containers.Sequence.Basic

namespace Containers

/-- A chain of nodes, from the front to the back. -/
structure Chain (α : Type) where
  nodes : List α

namespace Chain

variable {α : Type}

/-- No nodes. -/
def empty : Chain α := ⟨[]⟩

def ofList (xs : List α) : Chain α := ⟨xs⟩

def size (c : Chain α) : Nat := c.nodes.length

/-- The first `i` nodes, and the others. -/
def split (c : Chain α) (i : Nat) : Chain α × Chain α :=
  let (before, after) := c.nodes.splitAt i
  (⟨before⟩, ⟨after⟩)

/-- One chain behind the other. -/
def join (c d : Chain α) : Chain α := ⟨c.nodes ++ d.nodes⟩

theorem join_split (c : Chain α) (i : Nat) : (c.split i).1.join (c.split i).2 = c := by
  simp [split, join]

/-- Adds a node at the back. -/
def pushBack (v : α) (c : Chain α) : Chain α := c.join ⟨[v]⟩

/-- Adds a node at the front. -/
def pushFront (v : α) (c : Chain α) : Chain α := ⟨v :: c.nodes⟩

/-- Takes the last node away. -/
def popBack? : StateM (Chain α) (Option α) := fun c => (c.nodes.getLast?, ⟨c.nodes.dropLast⟩)

/-- Takes the first node away. -/
def popFront? : StateM (Chain α) (Option α) := fun c =>
  match c.nodes with
  | [] => (none, c)
  | v :: rest => (some v, ⟨rest⟩)

/-- Adds a node between the first `i` nodes and the others. -/
def insert (i : Nat) (v : α) : EStateM Error (Chain α) Unit := fun c =>
  if c.size < i then .error (.array (.outOfRange i c.size)) c
  else
    let (before, after) := c.split i
    .ok () ((before.pushBack v).join after)

/-- Takes away the first of the nodes behind the first `i` nodes. -/
def erase (i : Nat) : EStateM Error (Chain α) α := fun c =>
  if c.size ≤ i then .error (.array (.outOfRange i c.size)) c
  else
    let (before, after) := c.split i
    match popFront? after with
    | (some v, after) => .ok v (before.join after)
    | (none, after) => .error (.array (.outOfRange i c.size)) (before.join after)

/-- Overwrites the element with this index, if there is one; the previous one is
handed back. -/
def set? (i : Nat) (v : α) : StateM (Chain α) (Option α) := fun c =>
  (c.nodes[i]?, ⟨c.nodes.set i v⟩)

instance : Sequence (Chain α) α where
  toList := nodes
  size := size
  get? c i := c.nodes[i]?
  front? c := c.nodes.head?
  back? c := c.nodes.getLast?
  set? := set?
  pushBack _ v := fun c => .ok () (c.pushBack v)
  pushFront _ v := fun c => .ok () (c.pushFront v)
  popBack? := popBack?
  popFront? := popFront?
  insert _ := insert
  erase := erase
  clear _ := empty

end Chain

end Containers
