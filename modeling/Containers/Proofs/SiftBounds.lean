/-
Rising and sinking with every index looked up first.  Here each read may find nothing,
each index that is computed may be too large for a size, and the rounds are counted; that
none of this ever happens is seen from the indices alone, whatever the predicate is.
-/
import Containers.Heap
import Containers.Size
import Mathlib.Algebra.Group.Nat.Defs

namespace Containers

namespace Heap

variable {α : Type}

/-! ### Every index looked up -/

/-- The elements with two indices, compared. -/
def less? (less : α → α → Bool) (heap : Array α) (i j : Nat) : Option Bool :=
  match heap[i]?, heap[j]? with
  | some a, some b => some (less a b)
  | _, _ => none

/-- Rises from an index in at most so many rounds.  There is no result if an index has no
element or the rounds do not suffice. -/
def risen? (less : α → α → Bool) (heap : Array α) : Nat → Nat → Option (Array α)
  | 0, _ => none
  | rounds + 1, i =>
    if i = 0 then some heap
    else
      let parent := (i - 1) / 2
      match less? less heap parent i with
      | none => none
      | some false => some heap
      | some true => risen? less (heap.swapIfInBounds parent i) rounds parent

/-- The second index if its element is the greater one, and else the first. -/
def greater? (less : α → α → Bool) (heap : Array α) (i j : Nat) : Option Nat :=
  (less? less heap i j).map fun isLess => if isLess then j else i

/-- The index of the greatest of an element and its children, if the indices of the children
are sizes.  An index past the end has no children. -/
def greatest? (less : α → α → Bool) (heap : Array α) (i : Nat) : Option Nat :=
  match sizeSum? i i with
  | none => none
  | some double =>
    match sizeSum? double 1 with
    | none => none
    | some left =>
      if heap.size ≤ left then some i
      else
        match greater? less heap i left, sizeSum? left 1 with
        | some best, some right =>
          if right < heap.size then greater? less heap best right else some best
        | _, _ => none

/-- Sinks from an index in at most so many rounds.  There is no result if an index has no
element or is no size, or if the rounds do not suffice. -/
def sunk? (less : α → α → Bool) (heap : Array α) : Nat → Nat → Option (Array α)
  | 0, _ => none
  | rounds + 1, i =>
    match greatest? less heap i with
    | none => none
    | some best =>
      if best = i then some heap
      else sunk? less (heap.swapIfInBounds i best) rounds best

/-! ### Nothing goes wrong -/

theorem less?_eq_some (less : α → α → Bool) {heap : Array α} {i j : Nat} (hi : i < heap.size)
    (hj : j < heap.size) : less? less heap i j = some (less heap[i] heap[j]) := by
  simp [less?, hi, hj]

/-- Each round halves the index, so it cannot leave the heap. -/
theorem risen?_eq_some (less : α → α → Bool) (heap : Array α) (i : Nat) (hi : i < heap.size)
    {rounds : Nat} (hrounds : i < rounds) :
    risen? less heap rounds i = some (siftUp less heap i hi) := by
  obtain ⟨rounds, rfl⟩ := Nat.exists_eq_succ_of_ne_zero (Nat.ne_zero_of_lt hrounds)
  fun_induction siftUp less heap i hi generalizing rounds with
  | case1 heap hi => rw [risen?, if_pos rfl]
  | case2 heap i hi hpos parent hless ih =>
      have hparent : parent < heap.size := by omega
      have hswap : heap.swapIfInBounds parent i = heap.swap parent i := by
        simp [Array.swapIfInBounds, hparent, hi]
      obtain ⟨rounds, rfl⟩ : ∃ fewer, rounds = fewer + 1 := ⟨rounds - 1, by omega⟩
      have hrest := ih rounds (by omega)
      rw [risen?, if_neg hpos]
      dsimp only
      rw [less?_eq_some less hparent hi, hless, hswap]
      exact hrest
  | case3 heap i hi hpos parent hless =>
      have hparent : parent < heap.size := by omega
      rw [risen?, if_neg hpos]
      dsimp only
      rw [less?_eq_some less hparent hi, Bool.eq_false_iff.mpr hless]

theorem greater?_eq_some (less : α → α → Bool) {heap : Array α} {i j : Fin heap.size}
    (hi : i.val < heap.size) (hj : j.val < heap.size) :
    greater? less heap i j = some (if less heap[i] heap[j] then j else i).val := by
  rw [greater?, less?_eq_some less hi hj, Option.map_some, apply_ite Fin.val]
  rfl

/-- The children of an index within a heap of at most half of all sizes have sizes as
indices, be they in the heap or not. -/
theorem greatest?_eq_some (less : α → α → Bool) {heap : Array α} (hsize : heap.size ≤ 2 ^ 63)
    (i : Fin heap.size) : greatest? less heap i = some (greatest less heap i).val := by
  have hdouble : sizeSum? i.val i.val = some (i.val + i.val) :=
    sizeSum?_eq_some_iff.mpr ⟨rfl, by simp only [maxSize]; omega⟩
  have hleft : sizeSum? (i.val + i.val) 1 = some (i.val + i.val + 1) :=
    sizeSum?_eq_some_iff.mpr ⟨rfl, by simp only [maxSize]; omega⟩
  rw [greatest?, hdouble]
  dsimp only
  rw [hleft]
  dsimp only
  unfold greatest
  by_cases hl : 2 * i.val + 1 < heap.size
  · have heq : i.val + i.val + 1 = (⟨2 * i.val + 1, hl⟩ : Fin heap.size).val := by
      simp only
      omega
    have hright : sizeSum? (i.val + i.val + 1) 1 = some (2 * i.val + 2) :=
      sizeSum?_eq_some_iff.mpr ⟨by omega, by simp only [maxSize]; omega⟩
    rw [if_neg (by omega), hright, heq, greater?_eq_some less i.isLt hl, dif_pos hl]
    dsimp only
    by_cases hr : 2 * i.val + 2 < heap.size
    · rw [if_pos hr, dif_pos hr]
      exact greater?_eq_some less (j := ⟨2 * i.val + 2, hr⟩) (Fin.isLt _) hr
    · rw [if_neg hr, dif_neg hr]
  · rw [if_pos (by omega), dif_neg hl]

/-- Each round but the last moves to a greater index, so that there are no more rounds than
elements. -/
theorem sunk?_eq_some (less : α → α → Bool) (heap : Array α) (i : Fin heap.size)
    (hsize : heap.size ≤ 2 ^ 63) {rounds : Nat} (hrounds : heap.size - i.val ≤ rounds) :
    sunk? less heap rounds i = some (siftDown less heap i) := by
  fun_induction siftDown less heap i generalizing rounds with
  | case1 heap i best hsame =>
      obtain ⟨rounds, rfl⟩ : ∃ fewer, rounds = fewer + 1 := ⟨rounds - 1, by omega⟩
      rw [sunk?, greatest?_eq_some less hsize]
      dsimp only
      rw [if_pos (congrArg Fin.val hsame)]
  | case2 heap i best hne ih =>
      obtain ⟨rounds, rfl⟩ : ∃ fewer, rounds = fewer + 1 := ⟨rounds - 1, by omega⟩
      have hle : i.val ≤ best.val := le_greatest less heap i
      have hval : best.val ≠ i.val := fun heq => hne (Fin.ext heq)
      have hswap : heap.swapIfInBounds i best = heap.swap i best := by
        simp [Array.swapIfInBounds]
      rw [sunk?, greatest?_eq_some less hsize]
      dsimp only
      rw [if_neg hval, hswap]
      have hrounds' : (heap.swap i best).size - best.val ≤ rounds := by
        rw [Array.size_swap]
        omega
      exact ih (by rwa [Array.size_swap]) hrounds'

/-- The last element of a heap rises within it. -/
theorem risen?_last (less : α → α → Bool) {heap : Array α} (hpos : 0 < heap.size) :
    risen? less heap heap.size (heap.size - 1) = some (raiseLast less heap).val := by
  have hlast : heap.size - 1 < heap.size := by omega
  rw [risen?_eq_some less heap (heap.size - 1) hlast hlast, raiseLast, dif_pos hlast]

/-- The first element of a heap sinks within it, if there is one. -/
theorem sunk?_first (less : α → α → Bool) {heap : Array α} (hsize : heap.size ≤ 2 ^ 63) :
    sunk? less heap (heap.size + 1) 0 = some (sinkFirst less heap).val := by
  unfold sinkFirst
  split
  · rename_i hpos
    exact sunk?_eq_some less heap ⟨0, hpos⟩ hsize (by simp)
  · rename_i hempty
    simp [sunk?, greatest?, sizeSum?, maxSize, Nat.eq_zero_of_not_pos hempty]

end Heap

end Containers
