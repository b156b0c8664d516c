/-
Where the elements of an array are kept.  A store is read through its list of
elements, and each operation is fixed by what it does to that list.  Elements that
take memory are kept one by one; those that take none are only counted.
-/
import Containers.Size

namespace Containers

/-- A store `σ` for elements of type `α`, with its list of elements. -/
class Storage (σ : Type) (α : outParam Type) where
  toList : σ → List α
  ofList : List α → σ
  size : σ → Nat
  get? : σ → Nat → Option α
  push : σ → α → σ
  pop : σ → σ
  insert : σ → Nat → α → σ
  erase : σ → Nat → σ
  append : σ → σ → σ
  /-- Rewrites the elements in place, without changing their number. -/
  rewrite : ((xs : Array α) → { ys : Array α // ys.size = xs.size }) → σ → σ
  decideSame : [DecidableEq α] → (s t : σ) → Decidable (toList s = toList t)
  toList_ofList : ∀ xs, toList (ofList xs) = xs
  size_eq_length : ∀ s, size s = (toList s).length
  get?_eq_getElem? : ∀ s i, get? s i = (toList s)[i]?
  toList_push : ∀ s a, toList (push s a) = toList s ++ [a]
  toList_pop : ∀ s, toList (pop s) = (toList s).dropLast
  toList_insert : ∀ s i a, toList (insert s i a) = (toList s).insertIdx i a
  toList_erase : ∀ s i, toList (erase s i) = (toList s).eraseIdx i
  toList_append : ∀ s t, toList (append s t) = toList s ++ toList t
  toList_rewrite : ∀ f s, toList (rewrite f s) = (f (toList s).toArray).val.toList

attribute [simp] Storage.toList_ofList Storage.size_eq_length Storage.get?_eq_getElem?
  Storage.toList_push Storage.toList_pop Storage.toList_insert Storage.toList_erase
  Storage.toList_append Storage.toList_rewrite

instance : Storage (Array α) α where
  toList := Array.toList
  ofList := List.toArray
  size := Array.size
  get? xs i := xs[i]?
  push := Array.push
  pop := Array.pop
  insert := Array.insertIdxIfInBounds
  erase := Array.eraseIdxIfInBounds
  append := Array.append
  rewrite f xs := (f xs).val
  decideSame xs ys := decidable_of_iff (xs = ys) Array.toList_inj.symm
  toList_ofList _ := rfl
  size_eq_length xs := Array.length_toList.symm
  get?_eq_getElem? xs i := Array.getElem?_toList.symm
  toList_push _ _ := Array.toList_push
  toList_pop _ := Array.toList_pop
  toList_insert xs i a := by
    unfold Array.insertIdxIfInBounds
    split
    · exact Array.toList_insertIdx _
    · rw [List.insertIdx_of_length_lt]
      simp_all
  toList_erase _ _ := Array.toList_eraseIdxIfInBounds
  toList_append xs ys := Array.toList_append
  toList_rewrite _ _ := rfl

/-- A number of elements of which each is the only value of its type. -/
structure Tally where
  count : Nat
deriving DecidableEq

namespace Tally

/-- Lists of the only value are equal as soon as their lengths are. -/
theorem eq_replicate (xs : List Unit) : xs = List.replicate xs.length () :=
  List.eq_replicate_iff.2 ⟨rfl, fun _ _ => rfl⟩

private theorem ext_length {xs ys : List Unit} (h : xs.length = ys.length) : xs = ys := by
  rw [eq_replicate xs, eq_replicate ys, h]

instance : Storage Tally Unit where
  toList t := List.replicate t.count ()
  ofList xs := ⟨xs.length⟩
  size := count
  get? t i := if i < t.count then some () else none
  push t _ := ⟨t.count + 1⟩
  pop t := ⟨t.count - 1⟩
  insert t i _ := if i ≤ t.count then ⟨t.count + 1⟩ else t
  erase t i := if i < t.count then ⟨t.count - 1⟩ else t
  append s t := ⟨s.count + t.count⟩
  rewrite _ t := t
  decideSame s t := decidable_of_iff (s.count = t.count) (by
    constructor
    · intro h
      rw [h]
    · intro h
      simpa using congrArg List.length h)
  toList_ofList xs := (eq_replicate xs).symm
  size_eq_length _ := List.length_replicate.symm
  get?_eq_getElem? t i := by simp [List.getElem?_replicate]
  toList_push _ _ := ext_length (by simp)
  toList_pop _ := ext_length (by simp)
  toList_insert t i _ := ext_length (by simp [List.length_insertIdx]; split <;> simp)
  toList_erase t i := ext_length (by simp [List.length_eraseIdx]; split <;> simp)
  toList_append _ _ := ext_length (by simp)
  toList_rewrite f t := ext_length (by
    have h := (f (List.replicate t.count ()).toArray).property
    simpa using h.symm)

end Tally

/-- A type of elements: how many bytes one of them takes, and the store in which
an array keeps them. -/
class Element (α : Type) where
  bytes : Nat
  Store : Type
  storage : Storage Store α

attribute [reducible, instance] Element.storage

namespace Element

/-- Elements that are kept one by one, and take so many bytes each. -/
abbrev ofBytes {α : Type} (bytes : Nat) : Element α := ⟨bytes, Array α, inferInstance⟩

instance : Element Int64 := ofBytes 8

instance : Element UInt8 := ofBytes 1

/-- A text is kept elsewhere: its place holds an address, a size and a capacity. -/
instance : Element String := ofBytes 24

instance : Element Unit := ⟨0, Tally, inferInstance⟩

/-! How many bytes a pair takes does not follow from its parts: they may be laid out with gaps.
So each type of pairs has a size of its own. -/

instance : Element (UInt8 × UInt8) := ofBytes 2

instance : Element (Int64 × Int64) := ofBytes 16

instance : Element (String × Int64) := ofBytes 32

instance : Element ((String × Int64) × Int64) := ofBytes 40

/-- The most elements of one type that an array can hold. -/
def limit (α : Type) [Element α] : Nat := slotLimit (bytes α)

end Element

end Containers
