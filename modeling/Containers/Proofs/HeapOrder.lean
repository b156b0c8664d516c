/-
The order of a heap: no element is less than its child.  On their way, rising and
sinking pass through arrays that are in order but at one index, where the children
are still not greater than the grandparent.  Neither of them gains or loses an
element, whatever the predicate is.
-/
import Containers.Heap
import Containers.Proofs.WeakOrder
import Mathlib.Logic.Equiv.Basic

namespace Containers

namespace Heap

variable {α : Type} {less : α → α → Bool} {heap : Array α}

/-! ### Pairs in order -/

/-- The element with index `i` is not less than the one with index `j`, if both are
there. -/
def Dominates (less : α → α → Bool) (heap : Array α) (i j : Nat) : Prop :=
  ∀ a ∈ heap[i]?, ∀ b ∈ heap[j]?, less a b = false

/-- No element is less than its child. -/
def Ordered (less : α → α → Bool) (heap : Array α) : Prop :=
  ∀ i, 0 < i → Dominates less heap ((i - 1) / 2) i

theorem dominates_self (hweak : WeakOrder less) (heap : Array α) (i : Nat) :
    Dominates less heap i i := by
  intro a ha b hb
  obtain rfl : a = b := Option.mem_unique ha hb
  exact hweak.less_self a

theorem Dominates.trans {i j k : Nat} (hij : Dominates less heap i j) (hweak : WeakOrder less)
    (hjk : Dominates less heap j k) (hj : j < heap.size) : Dominates less heap i k := by
  intro a ha c hc
  have hb : heap[j] ∈ heap[j]? := Array.getElem?_eq_getElem hj
  exact hweak.not_less_trans (hij a ha _ hb) (hjk _ hb c hc)

theorem dominates_of_less (hweak : WeakOrder less) {i j : Nat} (hi : i < heap.size)
    (hj : j < heap.size) (hless : less heap[j] heap[i] = true) : Dominates less heap i j := by
  intro a ha b hb
  rw [Array.getElem?_eq_getElem hi, Option.mem_some_iff] at ha
  rw [Array.getElem?_eq_getElem hj, Option.mem_some_iff] at hb
  rw [← ha, ← hb]
  exact hweak.not_less_of_less hless

theorem dominates_of_not_less {i j : Nat} (hi : i < heap.size) (hj : j < heap.size)
    (hless : less heap[i] heap[j] = false) : Dominates less heap i j := by
  intro a ha b hb
  rw [Array.getElem?_eq_getElem hi, Option.mem_some_iff] at ha
  rw [Array.getElem?_eq_getElem hj, Option.mem_some_iff] at hb
  rwa [← ha, ← hb]

theorem getElem?_swap_eq {a b : Nat} (ha : a < heap.size) (hb : b < heap.size) (k : Nat) :
    (heap.swap a b)[k]? = heap[Equiv.swap a b k]? := by
  rw [Array.getElem?_swap]
  by_cases hkb : b = k
  · rw [if_pos hkb, ← hkb, Equiv.swap_apply_right, Array.getElem?_eq_getElem ha]
  · by_cases hka : a = k
    · rw [if_neg hkb, if_pos hka, ← hka, Equiv.swap_apply_left, Array.getElem?_eq_getElem hb]
    · rw [if_neg hkb, if_neg hka, Equiv.swap_apply_of_ne_of_ne (Ne.symm hka) (Ne.symm hkb)]

/-- An exchange of two elements exchanges their indices. -/
theorem dominates_swap {a b i j : Nat} (ha : a < heap.size) (hb : b < heap.size) :
    Dominates less (heap.swap a b) i j ↔
      Dominates less heap (Equiv.swap a b i) (Equiv.swap a b j) := by
  unfold Dominates
  rw [getElem?_swap_eq ha hb, getElem?_swap_eq ha hb]

/-- The first element of a heap is less than no other one. -/
theorem Ordered.root (hweak : WeakOrder less) (h : Ordered less heap) (i : Nat) :
    Dominates less heap 0 i := by
  induction i using Nat.strongRecOn with
  | ind i ih =>
      by_cases hzero : i = 0
      · rw [hzero]
        exact dominates_self hweak heap 0
      · by_cases hi : i < heap.size
        · have hparent : Dominates less heap 0 ((i - 1) / 2) := ih _ (by omega)
          exact hparent.trans hweak (h i (by omega)) (by omega)
        · intro a _ b hb
          rw [Array.getElem?_eq_none (by omega)] at hb
          contradiction

/-! ### Rising -/

/-- In order but for the element with index `i`, which may be greater than its
parent. -/
structure OrderedBelow (less : α → α → Bool) (heap : Array α) (i : Nat) : Prop where
  others : ∀ j, 0 < j → j ≠ i → Dominates less heap ((j - 1) / 2) j
  grandparent : ∀ j, 0 < j → (j - 1) / 2 = i → 0 < i → Dominates less heap ((i - 1) / 2) j

theorem OrderedBelow.ordered {i : Nat} (h : OrderedBelow less heap i)
    (hparent : 0 < i → Dominates less heap ((i - 1) / 2) i) : Ordered less heap := by
  intro j hj
  by_cases hji : j = i
  · rw [hji] at hj ⊢
    exact hparent hj
  · exact h.others j hj hji

/-- The index out of order moves up to the parent. -/
theorem OrderedBelow.swap {i p : Nat} (h : OrderedBelow less heap i) (hweak : WeakOrder less)
    (hpos : 0 < i) (hparent : (i - 1) / 2 = p) (hp : p < heap.size) (hi : i < heap.size)
    (hdown : Dominates less heap i p) : OrderedBelow less (heap.swap p i) p := by
  have hpi : p < i := by omega
  constructor
  · intro j hj hjp
    rw [dominates_swap hp hi]
    by_cases hji : j = i
    · rw [hji, hparent, Equiv.swap_apply_left, Equiv.swap_apply_right]
      exact hdown
    · rw [Equiv.swap_apply_of_ne_of_ne hjp hji]
      by_cases hchild : (j - 1) / 2 = i
      · rw [hchild, Equiv.swap_apply_right, ← hparent]
        exact h.grandparent j hj hchild hpos
      · by_cases hsibling : (j - 1) / 2 = p
        · rw [hsibling, Equiv.swap_apply_left]
          have hother : Dominates less heap p j := hsibling ▸ h.others j hj hji
          exact hdown.trans hweak hother hp
        · rw [Equiv.swap_apply_of_ne_of_ne hsibling hchild]
          exact h.others j hj hji
  · intro j hj hjp hp0
    have hup : Dominates less heap ((p - 1) / 2) p := h.others p hp0 (by omega)
    rw [dominates_swap hp hi, Equiv.swap_apply_of_ne_of_ne (by omega) (by omega)]
    by_cases hji : j = i
    · rw [hji, Equiv.swap_apply_right]
      exact hup
    · rw [Equiv.swap_apply_of_ne_of_ne (by omega) hji]
      have hother : Dominates less heap p j := hjp ▸ h.others j hj hji
      exact hup.trans hweak hother hp

theorem siftUp_ordered (hweak : WeakOrder less) {i : Nat} (hi : i < heap.size)
    (h : OrderedBelow less heap i) : Ordered less (siftUp less heap i hi) := by
  fun_induction siftUp less heap i hi with
  | case1 heap hi => exact h.ordered fun hpos => absurd hpos (Nat.lt_irrefl 0)
  | case2 heap i hi hne parent hless ih =>
      have hdown : Dominates less heap i parent := dominates_of_less hweak hi (by omega) hless
      exact ih (h.swap hweak (by omega) rfl (by omega) hi hdown)
  | case3 heap i hi hne parent hless =>
      exact h.ordered fun _ => dominates_of_not_less (by omega) hi (by simpa using hless)

theorem siftUp_perm (less : α → α → Bool) (heap : Array α) (i : Nat) (hi : i < heap.size) :
    (siftUp less heap i hi).Perm heap := by
  fun_induction siftUp less heap i hi with
  | case1 heap hi => exact Array.Perm.refl heap
  | case2 heap i hi hne parent hless ih => exact ih.trans (Array.swap_perm (by omega) hi)
  | case3 heap i hi hne parent hless => exact Array.Perm.refl heap

/-! ### Sinking -/

/-- In order but for the element with index `i`, which may be less than its
children. -/
structure OrderedAbove (less : α → α → Bool) (heap : Array α) (i : Nat) : Prop where
  others : ∀ j, 0 < j → (j - 1) / 2 ≠ i → Dominates less heap ((j - 1) / 2) j
  grandparent : ∀ j, 0 < j → (j - 1) / 2 = i → 0 < i → Dominates less heap ((i - 1) / 2) j

theorem OrderedAbove.ordered {i : Nat} (h : OrderedAbove less heap i)
    (hchildren : ∀ j, 0 < j → (j - 1) / 2 = i → Dominates less heap i j) :
    Ordered less heap := by
  intro j hj
  by_cases hji : (j - 1) / 2 = i
  · rw [hji]
    exact hchildren j hj hji
  · exact h.others j hj hji

/-- The index out of order moves down to the greatest child. -/
theorem OrderedAbove.swap {i c : Nat} (h : OrderedAbove less heap i)
    (hpos : 0 < c) (hparent : (c - 1) / 2 = i) (hi : i < heap.size) (hc : c < heap.size)
    (hup : Dominates less heap c i)
    (hgreatest : ∀ j, 0 < j → (j - 1) / 2 = i → Dominates less heap c j) :
    OrderedAbove less (heap.swap i c) c := by
  have hic : i < c := by omega
  constructor
  · intro j hj hjc
    rw [dominates_swap hi hc]
    by_cases hchild : (j - 1) / 2 = i
    · rw [hchild, Equiv.swap_apply_left]
      by_cases hjc' : j = c
      · rw [hjc', Equiv.swap_apply_right]
        exact hup
      · rw [Equiv.swap_apply_of_ne_of_ne (by omega) hjc']
        exact hgreatest j hj hchild
    · rw [Equiv.swap_apply_of_ne_of_ne hchild hjc]
      by_cases hji : j = i
      · rw [hji, Equiv.swap_apply_left]
        exact h.grandparent c hpos hparent (hji ▸ hj)
      · have hne : j ≠ c := fun heq => hchild (heq ▸ hparent)
        rw [Equiv.swap_apply_of_ne_of_ne hji hne]
        exact h.others j hj hchild
  · intro j hj hjc _
    rw [dominates_swap hi hc, hparent, Equiv.swap_apply_left,
      Equiv.swap_apply_of_ne_of_ne (by omega) (by omega)]
    exact hjc ▸ h.others j hj (by omega)

/-- The greater one of two elements; the first one, if they are tied.  The bounds stand
on their own because the elements are read with them. -/
theorem dominates_greater (hweak : WeakOrder less) {i j : Fin heap.size} (hi : i.val < heap.size)
    (hj : j.val < heap.size) :
    Dominates less heap (if less heap[i] heap[j] then j else i : Fin heap.size) i ∧
      Dominates less heap (if less heap[i] heap[j] then j else i : Fin heap.size) j := by
  cases hless : less heap[i] heap[j] with
  | true =>
      rw [if_pos rfl]
      exact ⟨dominates_of_less hweak hj hi hless, dominates_self hweak heap j⟩
  | false =>
      rw [if_neg Bool.false_ne_true]
      exact ⟨dominates_self hweak heap i, dominates_of_not_less hi hj hless⟩

theorem greatest_eq_or_child (less : α → α → Bool) (heap : Array α) (i : Fin heap.size) :
    greatest less heap i = i ∨
      0 < (greatest less heap i).val ∧ ((greatest less heap i).val - 1) / 2 = i.val := by
  unfold greatest
  dsimp only
  repeat' split
  all_goals simp <;> omega

/-- An index past the end is dominated by every other one. -/
theorem dominates_of_size_le {i j : Nat} (hj : heap.size ≤ j) : Dominates less heap i j := by
  intro a _ b hb
  rw [Array.getElem?_eq_none hj] at hb
  contradiction

/-- The greatest of an element and its children is less than none of them. -/
theorem greatest_dominates (hweak : WeakOrder less) (heap : Array α) (i : Fin heap.size) :
    Dominates less heap (greatest less heap i) i ∧
      ∀ j, 0 < j → (j - 1) / 2 = i.val → Dominates less heap (greatest less heap i) j := by
  by_cases hl : 2 * i.val + 1 < heap.size
  · obtain ⟨best, hbest⟩ : ∃ best : Fin heap.size, best =
        if less heap[i] heap[(⟨2 * i.val + 1, hl⟩ : Fin heap.size)] then ⟨2 * i.val + 1, hl⟩
        else i := ⟨_, rfl⟩
    obtain ⟨hself, hleft⟩ := dominates_greater hweak (j := ⟨2 * i.val + 1, hl⟩) i.isLt hl
    rw [← hbest] at hself hleft
    by_cases hr : 2 * i.val + 2 < heap.size
    · have heq : greatest less heap i =
          if less heap[best] heap[(⟨2 * i.val + 2, hr⟩ : Fin heap.size)] then ⟨2 * i.val + 2, hr⟩
          else best := by
        subst hbest
        unfold greatest
        rw [dif_pos hl, dif_pos hr]
      obtain ⟨hbetter, hright⟩ := dominates_greater hweak (j := ⟨2 * i.val + 2, hr⟩) best.isLt hr
      rw [← heq] at hbetter hright
      refine ⟨hbetter.trans hweak hself best.isLt, fun j hpos hj => ?_⟩
      obtain rfl | rfl : j = 2 * i.val + 1 ∨ j = 2 * i.val + 2 := by omega
      · exact hbetter.trans hweak hleft best.isLt
      · exact hright
    · have heq : greatest less heap i = best := by
        subst hbest
        unfold greatest
        rw [dif_pos hl, dif_neg hr]
      rw [heq]
      refine ⟨hself, fun j hpos hj => ?_⟩
      obtain rfl | hend : j = 2 * i.val + 1 ∨ heap.size ≤ j := by omega
      · exact hleft
      · exact dominates_of_size_le hend
  · have heq : greatest less heap i = i := by
      unfold greatest
      rw [dif_neg hl]
    rw [heq]
    refine ⟨dominates_self hweak heap i, fun j hpos hj => ?_⟩
    exact dominates_of_size_le (by omega)

theorem siftDown_ordered (hweak : WeakOrder less) (i : Fin heap.size)
    (h : OrderedAbove less heap i) : Ordered less (siftDown less heap i) := by
  fun_induction siftDown less heap i with
  | case1 heap i best heq =>
      obtain ⟨-, hchildren⟩ := greatest_dominates hweak heap i
      have hstay : greatest less heap i = i := heq
      rw [hstay] at hchildren
      exact h.ordered hchildren
  | case2 heap i best hne ih =>
      obtain ⟨hup, hgreatest⟩ := greatest_dominates hweak heap i
      obtain heq | ⟨hpos, hparent⟩ := greatest_eq_or_child less heap i
      · exact absurd heq hne
      · exact ih (h.swap hpos hparent i.isLt best.isLt hup hgreatest)

theorem siftDown_perm (less : α → α → Bool) (heap : Array α) (i : Fin heap.size) :
    (siftDown less heap i).Perm heap := by
  fun_induction siftDown less heap i with
  | case1 heap i best heq => exact Array.Perm.refl heap
  | case2 heap i best hne ih => exact ih.trans (Array.swap_perm i.isLt best.isLt)

/-! ### Adding an element and taking the first one away -/

/-- A heap with an element added at the end and risen to its place. -/
def added (less : α → α → Bool) (v : α) (heap : Array α) : Array α :=
  (raiseLast less (heap.push v)).val

/-- A heap without its first element, with the last one sunk from there. -/
def removed (less : α → α → Bool) (heap : Array α) : Array α :=
  (sinkFirst less (swapEnds heap).val.pop).val

theorem raiseLast_perm (less : α → α → Bool) (heap : Array α) :
    (raiseLast less heap).val.Perm heap := by
  unfold raiseLast
  split
  · exact siftUp_perm less heap _ _
  · exact Array.Perm.refl heap

theorem sinkFirst_perm (less : α → α → Bool) (heap : Array α) :
    (sinkFirst less heap).val.Perm heap := by
  unfold sinkFirst
  split
  · exact siftDown_perm less heap _
  · exact Array.Perm.refl heap

theorem swapEnds_perm (heap : Array α) : (swapEnds heap).val.Perm heap := by
  unfold swapEnds
  split
  · exact Array.swap_perm _ _
  · exact Array.Perm.refl heap

/-- The exchange of the ends brings the first element to the end. -/
theorem back?_swapEnds (heap : Array α) : (swapEnds heap).val.back? = heap[0]? := by
  unfold swapEnds
  split
  · rename_i hpos
    rw [Array.back?_eq_getElem?, Array.size_swap, getElem?_swap_eq hpos (by omega),
      Equiv.swap_apply_right]
  · rename_i hpos
    have hempty : heap = #[] := Array.eq_empty_of_size_eq_zero (by omega)
    rw [hempty]
    rfl

theorem added_perm (less : α → α → Bool) (v : α) (heap : Array α) :
    (added less v heap).Perm (heap.push v) :=
  raiseLast_perm less (heap.push v)

/-- Exactly the first element is missing. -/
theorem removed_perm (less : α → α → Bool) {heap : Array α} {v : α} (h : heap[0]? = some v) :
    heap.Perm ((removed less heap).push v) := by
  rw [← back?_swapEnds, Array.back?_eq_some_iff] at h
  obtain ⟨rest, hrest⟩ := h
  have hpop : (swapEnds heap).val.pop.push v = (swapEnds heap).val := by
    rw [hrest, Array.pop_push]
  have hsunk := (sinkFirst_perm less (swapEnds heap).val.pop).symm
  have hends := (swapEnds_perm heap).symm
  rw [← hpop] at hends
  exact hends.trans (hsunk.push v)

theorem added_ordered (hweak : WeakOrder less) (v : α) (h : Ordered less heap) :
    Ordered less (added less v heap) := by
  unfold added raiseLast
  rw [dif_pos (by simp)]
  apply siftUp_ordered hweak
  constructor
  · intro j hj hne a ha b hb
    rw [Array.size_push, Nat.add_sub_cancel] at hne
    rw [Array.getElem?_push, if_neg hne] at hb
    have hlt : j < heap.size := (Array.getElem?_eq_some_iff.mp hb).1
    rw [Array.getElem?_push, if_neg (by omega)] at ha
    exact h j hj a ha b hb
  · intro j hj hparent hpos
    rw [Array.size_push, Nat.add_sub_cancel] at hparent hpos
    exact dominates_of_size_le (by rw [Array.size_push]; omega)

theorem Dominates.pop {i j : Nat} (h : Dominates less heap i j) : Dominates less heap.pop i j := by
  intro a ha b hb
  rw [Array.getElem?_pop] at ha hb
  split at ha
  · split at hb
    · exact h a ha b hb
    · contradiction
  · contradiction

/-- Between the ends everything stays in its place. -/
theorem Dominates.swapEnds {i j : Nat} (h : Dominates less heap i j) (hi : 0 < i)
    (hij : i < j) (hj : j < heap.size - 1) : Dominates less (Heap.swapEnds heap).val i j := by
  unfold Heap.swapEnds
  rw [dif_pos (by omega), dominates_swap, Equiv.swap_apply_of_ne_of_ne (by omega) (by omega),
    Equiv.swap_apply_of_ne_of_ne (by omega) (by omega)]
  exact h

theorem removed_ordered (hweak : WeakOrder less) (h : Ordered less heap) :
    Ordered less (removed less heap) := by
  have hsize : (swapEnds heap).val.size = heap.size := (swapEnds heap).property
  unfold removed sinkFirst
  split
  · apply siftDown_ordered hweak
    constructor
    · intro j hj hparent
      have hbelow : (j - 1) / 2 ≠ 0 := hparent
      by_cases hlast : j < heap.size - 1
      · have hpair : Dominates less heap ((j - 1) / 2) j := h j hj
        exact (hpair.swapEnds (by omega) (by omega) hlast).pop
      · exact dominates_of_size_le (by rw [Array.size_pop, hsize]; omega)
    · intro j hj hparent hpos
      exact absurd hpos (Nat.lt_irrefl 0)
  · rename_i hempty
    intro j hj
    exact dominates_of_size_le (by dsimp only; omega)

end Heap

end Containers
