/-
A priority queue gives a greatest element away first.  The operations act on the
heap alone, whatever the predicate is; under a predicate that orders, every run
keeps every queue in the order of its heap.
-/
import Containers.PriorityQueue
import Containers.Proofs.HeapOrder
import Containers.Proofs.Room

namespace Containers

namespace PriorityQueue

variable {α : Type} [Element α]

/-! ### What the operations do to the heap -/

/-- The elements as the heap keeps them. -/
def heapArray (q : PriorityQueue α) : Array α := q.toList.toArray

theorem push_attempt (memory : Allocator) (v : α) (q : PriorityQueue α) :
    Attempt Error.IsShortage q
      (fun r => r.less = q.less ∧ r.heapArray = Heap.added q.less v q.heapArray)
      (push memory v q) := by
  obtain ⟨heap, less⟩ := q
  have hpush := DynArray.pushBack_attempt memory v heap
  unfold push
  dsimp only
  generalize DynArray.pushBack memory v heap = result at hpush ⊢
  cases hpush with
  | short hshort => exact .short hshort
  | @done grown hwide =>
      refine .done ⟨rfl, ?_⟩
      unfold heapArray toList Heap.added
      rw [DynArray.toList_rewrite, hwide.toList_eq, ← List.push_toArray]

/-- The element that is added is the only one that is new. -/
theorem push_perm_attempt (memory : Allocator) (v : α) (q : PriorityQueue α) :
    Attempt Error.IsShortage q (fun r => r.toList.Perm (v :: q.toList) ∧ r.less = q.less)
      (push memory v q) := by
  apply (push_attempt memory v q).mono
  rintro r ⟨hless, hheap⟩
  have hperm := (Heap.added_perm q.less v q.heapArray).toList
  rw [← hheap, Array.toList_push] at hperm
  exact ⟨hperm.trans List.perm_append_comm, hless⟩

theorem pop?_fst (q : PriorityQueue α) : (pop? q).1 = q.toList.head? := by
  obtain ⟨heap, less⟩ := q
  have hfirst := DynArray.popBack?_fst (heap.rewrite Heap.swapEnds)
  rw [DynArray.toList_rewrite, Array.getLast?_toList, Heap.back?_swapEnds,
    List.getElem?_toArray, ← List.head?_eq_getElem?] at hfirst
  unfold pop?
  dsimp only
  generalize DynArray.popBack? (heap.rewrite Heap.swapEnds) = result at hfirst ⊢
  obtain ⟨v?, rest⟩ := result
  cases v? <;> exact hfirst

theorem pop?_less (q : PriorityQueue α) : (pop? q).2.less = q.less := by
  obtain ⟨heap, less⟩ := q
  unfold pop?
  dsimp only
  split <;> rfl

theorem pop?_heapArray (q : PriorityQueue α) :
    (pop? q).2.heapArray = Heap.removed q.less q.heapArray := by
  have hfirst := pop?_fst q
  obtain ⟨heap, less⟩ := q
  have hrest := (DynArray.popBack?_narrowed (heap.rewrite Heap.swapEnds)).toList_eq
  rw [DynArray.toList_rewrite] at hrest
  unfold pop? at hfirst ⊢
  dsimp only at hfirst ⊢
  generalize DynArray.popBack? (heap.rewrite Heap.swapEnds) = result at hfirst hrest ⊢
  obtain ⟨v?, rest⟩ := result
  cases v? with
  | some v =>
      change (rest.rewrite (Heap.sinkFirst less)).toList.toArray = _
      rw [DynArray.toList_rewrite, Array.toArray_toList, hrest, ← List.pop_toArray]
      rfl
  | none =>
      have hempty : heap.toList = [] := by
        have hhead : none = heap.toList.head? := hfirst
        exact List.head?_eq_none_iff.mp hhead.symm
      have hnothing : rest.toList = [] := by
        rw [hrest, hempty]
        rfl
      change rest.toList.toArray = Heap.removed less heap.toList.toArray
      rw [hnothing, hempty]
      rfl

/-- The element that is given away is the only one that is missing afterwards. -/
theorem pop?_perm {q : PriorityQueue α} {t : α} (h : q.toList.head? = some t) :
    q.toList.Perm (t :: (pop? q).2.toList) := by
  have hfirst : q.heapArray[0]? = some t := by
    rw [heapArray, List.getElem?_toArray, ← List.head?_eq_getElem?, h]
  have hperm := (Heap.removed_perm q.less hfirst).toList
  rw [← pop?_heapArray, Array.toList_push] at hperm
  exact hperm.trans List.perm_append_comm

theorem pop_eq_elim (q : PriorityQueue α) :
    pop q = (pop? q).1.elim (.error (.empty .pop .priorityQueue) (pop? q).2)
      (.ok · (pop? q).2) := by
  unfold pop
  rcases pop? q with ⟨_ | v, r⟩ <;> rfl

theorem pop_eq_ok {q : PriorityQueue α} {t : α} (h : q.toList.head? = some t) :
    pop q = .ok t (pop? q).2 := by
  rw [pop_eq_elim, pop?_fst, h]
  rfl

theorem leftBy_pop (q : PriorityQueue α) : leftBy (pop q) = (pop? q).2 := by
  rw [pop_eq_elim, leftBy_elim]

/-! ### Queues in order -/

/-- The elements are in the order of a heap, by a predicate that orders. -/
structure Proper (q : PriorityQueue α) : Prop where
  weak : WeakOrder q.less
  ordered : Heap.Ordered q.less q.heapArray

theorem proper_of_nil {q : PriorityQueue α} (hweak : WeakOrder q.less) (h : q.toList = []) :
    q.Proper := by
  refine ⟨hweak, fun i _ => Heap.dominates_of_size_le ?_⟩
  simp [heapArray, h]

theorem Proper.pop? {q : PriorityQueue α} (h : q.Proper) : (PriorityQueue.pop? q).2.Proper := by
  constructor
  · rw [pop?_less]
    exact h.weak
  · rw [pop?_less, pop?_heapArray]
    exact Heap.removed_ordered h.weak h.ordered

theorem Proper.push {q : PriorityQueue α} (h : q.Proper) (memory : Allocator) (v : α) :
    (leftBy (PriorityQueue.push memory v q)).Proper := by
  apply (push_attempt memory v q).leftBy h
  rintro r ⟨hless, hheap⟩
  constructor
  · rw [hless]
    exact h.weak
  · rw [hless, hheap]
    exact Heap.added_ordered h.weak v h.ordered

theorem proper_new {memory : Allocator} {less : α → α → Bool} {q : PriorityQueue α}
    (hweak : WeakOrder less) (h : PriorityQueue.new memory less = .ok q) : q.Proper := by
  unfold PriorityQueue.new at h
  split at h
  · rename_i heap hnew
    obtain rfl := Except.ok.inj h
    exact proper_of_nil hweak (DynArray.ofPolicy_widened hnew).1.toList_eq
  · contradiction

/-! ### Runs -/

section Keeps

variable {P : PriorityQueue α → Prop} {memory : Allocator}

theorem pushAll_keeps (hpush : ∀ q v, P q → P (leftBy (push memory v q))) (vs : List α)
    {q : PriorityQueue α} (hq : P q) : P (leftBy (pushAll memory vs q)) := by
  induction vs generalizing q with
  | nil => exact hq
  | cons v vs ih =>
      have hfirst := hpush q v hq
      unfold pushAll
      cases hresult : push memory v q with
      | ok reply r =>
          rw [hresult] at hfirst
          exact ih hfirst
      | error error r =>
          rw [hresult] at hfirst
          exact hfirst

theorem popMany_keeps (hpop : ∀ q, P q → P (pop? q).2) (n : Nat) {q : PriorityQueue α}
    (hq : P q) : P (popMany n q).2 := by
  induction n generalizing q with
  | zero => exact hq
  | succ n ih =>
      have hfirst := hpop q hq
      unfold popMany
      generalize pop? q = result at hfirst ⊢
      obtain ⟨v?, rest⟩ := result
      cases v? with
      | some v => exact ih hfirst
      | none => exact hfirst

theorem ofList_keeps (hpush : ∀ q v, P q → P (leftBy (push memory v q))) {less : α → α → Bool}
    (hnew : ∀ q, new memory less = .ok q → P q) {xs : List α} {q : PriorityQueue α}
    (h : ofList memory less xs = .ok q) : P q := by
  obtain ⟨empty, hempty, hfilled⟩ := bind_eq_ok h
  have hpushed := pushAll_keeps hpush xs (hnew empty hempty)
  cases hresult : pushAll memory xs empty with
  | ok reply r =>
      rw [hresult] at hfilled hpushed
      rw [← Except.ok.inj hfilled]
      exact hpushed
  | error error r =>
      rw [hresult] at hfilled
      contradiction

/-- The predicate that a queue is made with. -/
def Command.predicate? : Command α → Option (α → α → Bool)
  | new less | ofList less _ => some less
  | _ => none

/-- What holds of new queues, and is kept when one element comes or goes or all of them go,
is kept by all operations. -/
theorem Command.keeps_of_single {command : Command α}
    (hnew : ∀ less q, command.predicate? = some less → PriorityQueue.new memory less = .ok q → P q)
    (hpush : ∀ q v, P q → P (leftBy (PriorityQueue.push memory v q)))
    (hpop : ∀ q, P q → P (PriorityQueue.pop? q).2) (hclear : ∀ q, P q → P q.clear) :
    (command.effect memory).Keeps P := by
  cases command with
  | new less => exact fun q hq => hnew less q rfl hq
  | ofList less xs => exact fun q hq => ofList_keeps hpush (fun r => hnew less r rfl) hq
  | push v =>
      refine Effect.keeps_refusable fun q hq => ?_
      rw [leftBy_silently]
      exact hpush q v hq
  | pushAll vs =>
      refine Effect.keeps_refusable fun q hq => ?_
      rw [leftBy_silently]
      exact pushAll_keeps hpush vs hq
  | top? => exact Effect.keeps_look _
  | top => exact Effect.keeps_lookAsserted _
  | pop? => exact Effect.keeps_total hpop
  | pop =>
      refine Effect.keeps_asserted fun q hq => ?_
      rw [leftBy_map, leftBy_pop]
      exact hpop q hq
  | drain => exact Effect.keeps_total fun q hq => popMany_keeps hpop q.size hq
  | clear => exact hclear
  | exchange => exact fun q r hq hr => ⟨hr, hq⟩

end Keeps

/-- A predicate that a queue is made with orders the elements. -/
def Command.Orders : Command α → Prop
  | new less => WeakOrder less
  | ofList less _ => WeakOrder less
  | _ => True

theorem Command.Orders.weak {β : Type} {command : Command β} (h : command.Orders)
    {less : β → β → Bool} (hless : command.predicate? = some less) : WeakOrder less := by
  cases command with
  | new | ofList => exact Option.some.inj hless ▸ h
  | _ => contradiction

theorem Command.keeps_proper (memory : Allocator) {command : Command α} (h : command.Orders) :
    (command.effect memory).Keeps Proper :=
  keeps_of_single (fun _ _ hless hq => proper_new (h.weak hless) hq)
    (fun _ v hq => hq.push memory v) (fun _ hq => hq.pop?) fun q hq =>
      proper_of_nil (q := q.clear) hq.weak (DynArray.toList_clear q.heap)

theorem run_proper (operations : List (Place × Allocator × Command α))
    (horders : ∀ operation ∈ operations, operation.2.2.Orders) :
    (Workspace.vacant.runEach Command.effect operations).2.Holds Proper :=
  Workspace.holds_runEach fun operation hmem =>
    Command.keeps_proper operation.2.1 (horders operation hmem)

/-- One of the given elements, and less than none of them. -/
def GreatestIn (less : α → α → Bool) (xs : List α) (t : α) : Prop :=
  t ∈ xs ∧ ∀ e ∈ xs, less t e = false

theorem Proper.greatestIn_head {q : PriorityQueue α} (h : q.Proper) {t : α}
    (hhead : q.toList.head? = some t) : GreatestIn q.less q.toList t := by
  refine ⟨List.mem_of_mem_head? hhead, fun e he => ?_⟩
  obtain ⟨i, hi, rfl⟩ := List.getElem_of_mem he
  have hroot : Heap.Dominates q.less q.heapArray 0 i := h.ordered.root h.weak i
  apply hroot
  · rw [heapArray, List.getElem?_toArray, ← List.head?_eq_getElem?, hhead]
    rfl
  · rw [heapArray, List.getElem?_toArray, List.getElem?_eq_getElem hi]
    rfl

theorem Proper.not_less_child {q : PriorityQueue α} (h : q.Proper) (i : Nat) (hpos : 1 ≤ i)
    (hi : i < q.toList.length) : q.less q.toList[(i - 1) / 2] q.toList[i] = false := by
  apply h.ordered i hpos
  · rw [heapArray, List.getElem?_toArray, List.getElem?_eq_getElem (by omega)]
    rfl
  · rw [heapArray, List.getElem?_toArray, List.getElem?_eq_getElem hi]
    rfl

theorem top?_eq_head? (q : PriorityQueue α) : q.top? = q.toList.head? :=
  DynArray.front?_eq_head? q.heap

theorem top_eq_ok {q : PriorityQueue α} {t : α} (h : q.toList.head? = some t) :
    q.top = .ok t := by
  unfold top
  rw [top?_eq_head?, h]

/-- Every queue that a run leaves behind is in the order of its heap, has a greatest
element on top and gives it away first.  Nothing but the added or the given element
comes or goes. -/
theorem run_gives_greatest_first (operations : List (Place × Allocator × Command α))
    (horders : ∀ operation ∈ operations, operation.2.2.Orders) (place : Place)
    (q : PriorityQueue α)
    (hq : q ∈ (Workspace.vacant.runEach Command.effect operations).2.get place) :
    (∀ i (hi : i < q.toList.length), 1 ≤ i →
        q.less q.toList[(i - 1) / 2] q.toList[i] = false) ∧
      (∀ memory v, Attempt Error.IsShortage q
        (fun r => r.toList.Perm (v :: q.toList) ∧ r.less = q.less) (push memory v q)) ∧
      (q.toList = [] → q.top? = none ∧ (pop? q).1 = none ∧ (pop? q).2.toList = []) ∧
      (q.toList ≠ [] → ∃ t r, q.top? = some t ∧ q.top = .ok t ∧
        pop? q = (some t, r) ∧ pop q = .ok t r ∧
        GreatestIn q.less q.toList t ∧
        q.toList.Perm (t :: r.toList) ∧ r.less = q.less) := by
  have hproper : q.Proper := run_proper operations horders place q hq
  refine ⟨fun i hi hpos => hproper.not_less_child i hpos hi,
    fun memory v => push_perm_attempt memory v q, ?_, ?_⟩
  · intro hnil
    have hheap := pop?_heapArray q
    rw [heapArray, heapArray, hnil] at hheap
    refine ⟨?_, ?_, congrArg Array.toList hheap⟩
    · rw [top?_eq_head?, hnil, List.head?_nil]
    · rw [pop?_fst, hnil, List.head?_nil]
  · intro hne
    obtain ⟨t, rest, hcons⟩ := List.exists_cons_of_ne_nil hne
    have hhead : q.toList.head? = some t := by rw [hcons, List.head?_cons]
    have hpop : pop? q = (some t, (pop? q).2) := Prod.ext ((pop?_fst q).trans hhead) rfl
    refine ⟨t, (pop? q).2, ?_, top_eq_ok hhead, hpop, pop_eq_ok hhead,
      hproper.greatestIn_head hhead, pop?_perm hhead, pop?_less q⟩
    rw [top?_eq_head?, hhead]

namespace GreatestFirstWitness

/-- The last decimal digit. -/
def lastDigit (a : UInt8) : Nat := a.toNat % 10

/-- The distance to the greatest number, so that greater ones come first. -/
def distance (a : UInt8) : Nat := 255 - a.toNat

/-- Two queues of different orders change places and give elements away; when memory has run
out, an element still finds room. -/
def operations : List (Place × Allocator × Command UInt8) :=
  [(.first, .addressSpace, .ofList (lessBy lastDigit) [15, 23, 5, 31]),
    (.second, .addressSpace, .new (lessBy distance)), (.second, .addressSpace, .push 7),
    (.second, .addressSpace, .push 9), (.first, .exhausted, .exchange),
    (.second, .exhausted, .pop?), (.second, .exhausted, .push 4)]

theorem operations_order : ∀ operation ∈ operations, operation.2.2.Orders := by
  simp [operations, Command.Orders, weakOrder_lessBy]

def left : Option (PriorityQueue UInt8) :=
  (Workspace.vacant.runEach Command.effect operations).2.get .second

theorem run_gives_greatest_first_exchanged :
    ∃ q ∈ left, q.toList = [5, 4, 31, 23] ∧ ∃ t r, pop? q = (some t, r) ∧
      GreatestIn q.less q.toList t ∧ q.toList.Perm (t :: r.toList) := by
  have hsome : left.isSome = true := by decide +kernel
  obtain ⟨q, hq⟩ := Option.isSome_iff_exists.mp hsome
  have hlist : left.map toList = some [5, 4, 31, 23] := by decide +kernel
  rw [hq, Option.map_some, Option.some_inj] at hlist
  obtain ⟨-, -, -, hfull⟩ :=
    run_gives_greatest_first operations operations_order .second q hq
  obtain ⟨t, r, -, -, hpop, -, hgreatest, hperm, -⟩ := hfull (by simp [hlist])
  exact ⟨q, hq, hlist, t, r, hpop, hgreatest, hperm⟩

end GreatestFirstWitness

end PriorityQueue

end Containers
