/-
Binary heaps in an array: the children of the element with index `i` have the
indices `2 * i + 1` and `2 * i + 2`.
-/
namespace Containers

namespace Heap

variable {α : Type}

/-- Exchanges the element with index `i` with its parent as long as the parent is
less. -/
def siftUp (less : α → α → Bool) (heap : Array α) (i : Nat) (hi : i < heap.size) :
    Array α :=
  if h : i = 0 then heap
  else
    let parent := (i - 1) / 2
    if less heap[parent] heap[i] then
      siftUp less (heap.swap parent i) parent (by rw [Array.size_swap]; omega)
    else heap
termination_by i

/-- The greatest of an element and its children.  A child takes the place only of
what is less than it, and the first child is asked first. -/
def greatest (less : α → α → Bool) (heap : Array α) (i : Fin heap.size) : Fin heap.size :=
  if hl : 2 * i.val + 1 < heap.size then
    let left : Fin heap.size := ⟨2 * i.val + 1, hl⟩
    let best := if less heap[i] heap[left] then left else i
    if hr : 2 * i.val + 2 < heap.size then
      let right : Fin heap.size := ⟨2 * i.val + 2, hr⟩
      if less heap[best] heap[right] then right else best
    else best
  else i

theorem le_greatest (less : α → α → Bool) (heap : Array α) (i : Fin heap.size) :
    i ≤ greatest less heap i := by
  have hleft : ∀ h, i ≤ (⟨2 * i.val + 1, h⟩ : Fin heap.size) := by
    intro h
    show i.val ≤ 2 * i.val + 1
    omega
  have hright : ∀ h, i ≤ (⟨2 * i.val + 2, h⟩ : Fin heap.size) := by
    intro h
    show i.val ≤ 2 * i.val + 2
    omega
  unfold greatest
  dsimp only
  repeat' split
  all_goals simp only [hleft, hright, Fin.le_refl]

/-- Exchanges the element with index `i` with the greater one of its children as
long as that child is greater than it. -/
def siftDown (less : α → α → Bool) (heap : Array α) (i : Fin heap.size) : Array α :=
  let best := greatest less heap i
  if h : best = i then heap
  else siftDown less (heap.swap i best) (best.cast Array.size_swap.symm)
termination_by heap.size - i
decreasing_by
  have hle := le_greatest less heap i
  have hne : best ≠ i := h
  simp only [Fin.val_cast, Array.size_swap]
  omega

theorem size_siftUp (less : α → α → Bool) (heap : Array α) (i : Nat) (hi : i < heap.size) :
    (siftUp less heap i hi).size = heap.size := by
  fun_induction siftUp less heap i hi with
  | case1 => rfl
  | case2 heap i hi h parent hless ih => rw [ih, Array.size_swap]
  | case3 => rfl

theorem size_siftDown (less : α → α → Bool) (heap : Array α) (i : Fin heap.size) :
    (siftDown less heap i).size = heap.size := by
  fun_induction siftDown less heap i with
  | case1 => rfl
  | case2 heap i best hne ih => rw [ih, Array.size_swap]

/-- Lets the last element rise to its place. -/
def raiseLast (less : α → α → Bool) (heap : Array α) :
    { ys : Array α // ys.size = heap.size } :=
  if h : heap.size - 1 < heap.size then
    ⟨siftUp less heap (heap.size - 1) h, size_siftUp less heap _ h⟩
  else ⟨heap, rfl⟩

/-- Lets the first element sink to its place. -/
def sinkFirst (less : α → α → Bool) (heap : Array α) :
    { ys : Array α // ys.size = heap.size } :=
  if h : 0 < heap.size then ⟨siftDown less heap ⟨0, h⟩, size_siftDown less heap ⟨0, h⟩⟩
  else ⟨heap, rfl⟩

/-- Exchanges the first and the last element. -/
def swapEnds (heap : Array α) : { ys : Array α // ys.size = heap.size } :=
  if h : 0 < heap.size then ⟨heap.swap 0 (heap.size - 1), Array.size_swap⟩
  else ⟨heap, rfl⟩

end Heap

end Containers
