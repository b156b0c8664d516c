/-
Reading the elements of an array, and overwriting them where they are.  The
capacity is not touched.  An index can be given in three ways: asserted, so that a
wrong one is a violation; checked, so that a wrong one is reported; or with no
answer for a wrong one.
-/
import Containers.Cursor
import Containers.DynArray.Basic

namespace Containers

/-- The list with its first elements overwritten by the given values, as far as
both go. -/
def overlay {α : Type} : List α → List α → List α
  | v :: vs, _ :: xs => v :: overlay vs xs
  | [], xs => xs
  | _, [] => []

theorem length_overlay {α : Type} (vs xs : List α) : (overlay vs xs).length = xs.length := by
  fun_induction overlay vs xs <;> simp_all

namespace DynArray

variable {α : Type} [Element α]

/-! ### Reading -/

/-- The element with this index, if there is one. -/
def get? (a : DynArray α) (i : Nat) : Option α := Storage.get? a.store i

theorem get?_eq_getElem? (a : DynArray α) (i : Nat) : a.get? i = a.toList[i]? :=
  Storage.get?_eq_getElem? a.store i

/-- The element with an asserted index. -/
def get (a : DynArray α) (i : Nat) : Except Violation α :=
  match a.get? i with
  | some v => .ok v
  | none => .error (.index i a.size)

/-- The element with a checked index. -/
def getChecked (a : DynArray α) (i : Nat) : Except ArrayError α :=
  match a.get? i with
  | some v => .ok v
  | none => .error (.outOfRange i a.size)

def front? (a : DynArray α) : Option α := a.get? 0

def back? (a : DynArray α) : Option α := if a.isEmpty then none else a.get? (a.size - 1)

theorem front?_eq_head? (a : DynArray α) : a.front? = a.toList.head? := by
  rw [front?, get?_eq_getElem?, List.head?_eq_getElem?]

theorem back?_eq_getLast? (a : DynArray α) : a.back? = a.toList.getLast? := by
  unfold back? isEmpty
  rw [get?_eq_getElem?, size_eq_length, List.getLast?_eq_getElem?]
  split
  · simp_all
  · rfl

/-- The first element of an array asserted to have one. -/
def front (a : DynArray α) : Except Violation α :=
  match a.front? with
  | some v => .ok v
  | none => .error (.empty .front .array)

/-- The last element of an array asserted to have one. -/
def back (a : DynArray α) : Except Violation α :=
  match a.back? with
  | some v => .ok v
  | none => .error (.empty .back .array)

/-- Reads the elements from both ends. -/
def cursor (a : DynArray α) : Cursor (Element.Store α) := .ofStore a.store

/-! ### Overwriting -/

/-- Rewrites the elements in place, without changing their number. -/
def rewrite (f : (xs : Array α) → { ys : Array α // ys.size = xs.size }) (a : DynArray α) :
    DynArray α :=
  { a with store := Storage.rewrite f a.store }

@[simp] theorem toList_rewrite (f : (xs : Array α) → { ys : Array α // ys.size = xs.size })
    (a : DynArray α) : (a.rewrite f).toList = (f a.toList.toArray).val.toList :=
  Storage.toList_rewrite f a.store

/-- Overwrites the element with this index, if there is one. -/
def put (i : Nat) (v : α) (a : DynArray α) : DynArray α :=
  a.rewrite fun xs => ⟨xs.setIfInBounds i v, Array.size_setIfInBounds⟩

@[simp] theorem toList_put (i : Nat) (v : α) (a : DynArray α) :
    (a.put i v).toList = a.toList.set i v := by
  rw [put, toList_rewrite]
  simp

/-- Overwrites the element with an asserted index; the previous one is handed
back. -/
def set (i : Nat) (v : α) : EStateM Violation (DynArray α) α := fun a =>
  match a.get? i with
  | some previous => .ok previous (a.put i v)
  | none => .error (.index i a.size) a

/-- Overwrites the element with a checked index; the previous one is handed
back. -/
def setChecked (i : Nat) (v : α) : EStateM ArrayError (DynArray α) α := fun a =>
  match a.get? i with
  | some previous => .ok previous (a.put i v)
  | none => .error (.outOfRange i a.size) a

/-- Overwrites the element with this index, if there is one; the previous one is
handed back. -/
def set? (i : Nat) (v : α) : StateM (DynArray α) (Option α) := fun a =>
  match a.get? i with
  | some previous => (some previous, a.put i v)
  | none => (none, a)

def setFront? (v : α) : StateM (DynArray α) (Option α) := set? 0 v

def setBack? (v : α) : StateM (DynArray α) (Option α) := fun a =>
  if a.isEmpty then (none, a) else set? (a.size - 1) v a

theorem set?_fst (i : Nat) (v : α) (a : DynArray α) : (set? i v a).1 = a.toList[i]? := by
  unfold set?
  rw [← get?_eq_getElem?]
  cases a.get? i <;> rfl

theorem toList_set? (i : Nat) (v : α) (a : DynArray α) :
    (set? i v a).2.toList = a.toList.set i v := by
  unfold set?
  cases hget : a.get? i with
  | some previous => exact toList_put i v a
  | none =>
      rw [get?_eq_getElem?, List.getElem?_eq_none_iff] at hget
      rw [List.set_eq_of_length_le hget]

theorem setBack?_fst (v : α) (a : DynArray α) : (setBack? v a).1 = a.toList.getLast? := by
  unfold setBack? isEmpty
  rw [size_eq_length, List.getLast?_eq_getElem?]
  split
  · simp_all
  · exact set?_fst _ v a

theorem toList_setBack? (v : α) (a : DynArray α) :
    (setBack? v a).2.toList = a.toList.set (a.toList.length - 1) v := by
  unfold setBack? isEmpty
  rw [size_eq_length]
  split
  · simp_all
  · exact toList_set? _ v a

/-! ### Rewriting all of it -/

/-- Sorts by an order on the elements; equal elements keep their order. -/
def sortBy (le : α → α → Bool) (a : DynArray α) : DynArray α :=
  a.rewrite fun xs => ⟨(xs.toList.mergeSort le).toArray, by simp⟩

def reverse (a : DynArray α) : DynArray α :=
  a.rewrite fun xs => ⟨xs.reverse, Array.size_reverse⟩

/-- Writes the values over the elements, from the front. -/
def overwriteFront (vs : List α) (a : DynArray α) : DynArray α :=
  a.rewrite fun xs => ⟨(overlay vs xs.toList).toArray, by simp [length_overlay]⟩

/-- Writes the values over the elements, from the back: the first value over the
last element. -/
def overwriteBack (vs : List α) (a : DynArray α) : DynArray α :=
  a.rewrite fun xs => ⟨(overlay vs xs.toList.reverse).reverse.toArray, by simp [length_overlay]⟩

/-- The arrays hold the same elements in the same order; capacity and policy do
not matter. -/
def same [DecidableEq α] (a b : DynArray α) : Bool :=
  (Storage.decideSame a.store b.store).decide

theorem same_iff [DecidableEq α] (a b : DynArray α) : a.same b = true ↔ a.toList = b.toList :=
  @decide_eq_true_iff _ (Storage.decideSame a.store b.store)

end DynArray

end Containers
