/-
Draining a priority queue sorts it.  Taking elements away until nothing comes any more
hands out all of them, and none that is less than a later one.  There is only one such
row of the elements up to ties, so neither the order in which they came in nor the shape
of the heap can be told from it.
-/
import Containers.Proofs.GreatestFirst
import Mathlib.Data.List.Sort

namespace Containers

variable {α : Type}

/-! ### Descending lists -/

/-- No element is less than a later one. -/
def Descending (less : α → α → Bool) (xs : List α) : Prop :=
  xs.Pairwise fun a b => less a b = false

/-- Two descending rows of the same elements differ only among ties. -/
theorem Descending.tied {less : α → α → Bool} (hweak : WeakOrder less) {xs ys : List α}
    (hxs : Descending less xs) (hys : Descending less ys) (hperm : xs.Perm ys) :
    List.Forall₂ (Tied less) xs ys := by
  -- Up to ties the order is antisymmetric, so the rows of classes are the same.
  let NotLess (c d : hweak.Class) : Prop :=
    ∃ a b, hweak.classOf a = c ∧ hweak.classOf b = d ∧ less a b = false
  have hrow : ∀ {zs : List α}, Descending less zs → (zs.map hweak.classOf).Pairwise NotLess := by
    intro zs hzs
    rw [List.pairwise_map]
    exact hzs.imp fun {a b} hab => ⟨a, b, rfl, rfl, hab⟩
  have hantisymm : ∀ c d, NotLess c d → NotLess d c → c = d := by
    rintro _ _ ⟨a, b, rfl, rfl, hab⟩ ⟨b', a', hb', ha', hba⟩
    have hb : Tied less b b' := (hweak.classOf_eq_iff.mp hb').symm
    have ha : Tied less a' a := hweak.classOf_eq_iff.mp ha'
    have hback : less b a = false :=
      hweak.not_less_trans (hweak.not_less_trans hb.1 hba) ha.1
    exact hweak.classOf_eq_iff.mpr ⟨hab, hback⟩
  have hclasses : xs.map hweak.classOf = ys.map hweak.classOf :=
    (hperm.map hweak.classOf).eq_of_pairwise (fun c d _ _ => hantisymm c d) (hrow hxs) (hrow hys)
  have hsame : List.Forall₂ (fun a b => hweak.classOf a = hweak.classOf b) xs ys := by
    rw [← List.forall₂_map_left_iff (R := fun c b => c = hweak.classOf b),
      ← List.forall₂_map_right_iff (R := Eq), hclasses, List.forall₂_eq_eq_eq]
  exact hsame.imp fun a b heq => hweak.classOf_eq_iff.mp heq

/-- Of two different elements one is less. -/
def Trichotomous (less : α → α → Bool) : Prop := ∀ a b, Tied less a b → a = b

theorem Descending.eq_of_trichotomous {less : α → α → Bool} (hweak : WeakOrder less)
    (htotal : Trichotomous less) {xs ys : List α} (hxs : Descending less xs)
    (hys : Descending less ys) (hperm : xs.Perm ys) : xs = ys := by
  have hequal : List.Forall₂ Eq xs ys := (hxs.tied hweak hys hperm).imp htotal
  rwa [List.forall₂_eq_eq_eq] at hequal

/-- The greatest elements first. -/
def sortedDown (less : α → α → Bool) (xs : List α) : List α :=
  xs.mergeSort fun a b => !less a b

theorem sortedDown_perm (less : α → α → Bool) (xs : List α) : (sortedDown less xs).Perm xs :=
  List.mergeSort_perm xs _

theorem sortedDown_descending {less : α → α → Bool} (hweak : WeakOrder less) (xs : List α) :
    Descending less (sortedDown less xs) := by
  have hsorted : (sortedDown less xs).Pairwise fun a b => (!less a b) = true :=
    List.pairwise_mergeSort ?_ ?_ xs
  · exact hsorted.imp fun {a b} hab => by simpa using hab
  · intro a b c hab hbc
    simp only [Bool.not_eq_true'] at hab hbc ⊢
    exact hweak.not_less_trans hab hbc
  · intro a b
    cases hab : less a b with
    | false => rfl
    | true => simp [hweak.not_less_of_less hab]

namespace PriorityQueue

variable [Element α] {q r s : PriorityQueue α} {v : α} {out out' : List α}

/-! ### Taking away until nothing comes -/

/-- Taking elements away until nothing comes any more hands out `out` and leaves the
last queue. -/
inductive Drains : PriorityQueue α → List α → PriorityQueue α → Prop
  | done {q r : PriorityQueue α} (hnone : pop? q = (none, r)) : Drains q [] r
  | next {q r s : PriorityQueue α} {v : α} {out : List α} (hsome : pop? q = (some v, r))
      (hrest : Drains r out s) : Drains q (v :: out) s

theorem pop?_eq_none (h : pop? q = (none, r)) : q.toList = [] ∧ r.toList = [] := by
  have hhead := pop?_fst q
  rw [h] at hhead
  have hnil : q.toList = [] := List.head?_eq_none_iff.mp hhead.symm
  have hheap := pop?_heapArray q
  rw [h, heapArray, heapArray, hnil] at hheap
  exact ⟨hnil, congrArg Array.toList hheap⟩

theorem pop?_eq_some (h : pop? q = (some v, r)) :
    q.toList.head? = some v ∧ q.toList.Perm (v :: r.toList) ∧ r.less = q.less := by
  have hhead := pop?_fst q
  have hperm := @pop?_perm α _ q v
  have hless := pop?_less q
  rw [h] at hhead hperm hless
  exact ⟨hhead.symm, hperm hhead.symm, hless⟩

/-- There is only one way to drain a queue. -/
theorem Drains.unique (h : Drains q out r) (h' : Drains q out' s) : out = out' ∧ r = s := by
  induction h generalizing out' s with
  | done hnone =>
      cases h' with
      | done hnone' => exact ⟨rfl, (Prod.mk.inj (hnone.symm.trans hnone')).2⟩
      | next hsome' _ => exact nomatch hnone.symm.trans hsome'
  | next hsome _ ih =>
      cases h' with
      | done hnone' => exact nomatch hsome.symm.trans hnone'
      | next hsome' hrest' =>
          obtain ⟨⟨⟩, rfl⟩ := Prod.mk.inj (hsome.symm.trans hsome')
          obtain ⟨rfl, rfl⟩ := ih hrest'
          exact ⟨rfl, rfl⟩

/-- Every element is handed out once, and nothing is left. -/
theorem Drains.perm (h : Drains q out r) :
    out.Perm q.toList ∧ r.toList = [] ∧ r.less = q.less := by
  induction h with
  | @done q r hnone =>
      obtain ⟨hnil, hleft⟩ := pop?_eq_none hnone
      have hless := pop?_less q
      rw [hnone] at hless
      rw [hnil]
      exact ⟨.refl _, hleft, hless⟩
  | next hsome _ ih =>
      obtain ⟨-, hperm, hless⟩ := pop?_eq_some hsome
      obtain ⟨hrest, hleft, hless'⟩ := ih
      exact ⟨(hrest.cons _).trans hperm.symm, hleft, hless'.trans hless⟩

/-- Each time an element less is left, whatever the predicate is. -/
theorem exists_drains (q : PriorityQueue α) : ∃ out r, Drains q out r := by
  induction hlength : q.toList.length generalizing q with
  | zero =>
      have hnil : q.toList = [] := List.length_eq_zero_iff.mp hlength
      have hnone : (pop? q).1 = none := by rw [pop?_fst, hnil, List.head?_nil]
      exact ⟨[], _, .done (Prod.ext hnone rfl)⟩
  | succ n ih =>
      obtain ⟨v, rest, hcons⟩ := List.exists_cons_of_length_eq_add_one hlength
      have hsome : pop? q = (some v, (pop? q).2) :=
        Prod.ext ((pop?_fst q).trans (by rw [hcons, List.head?_cons])) rfl
      have hfewer := (pop?_eq_some hsome).2.1.length_eq
      rw [List.length_cons, hlength, Nat.add_right_cancel_iff] at hfewer
      obtain ⟨out, r, hrest⟩ := ih (pop? q).2 hfewer.symm
      exact ⟨v :: out, r, .next hsome hrest⟩

/-- As many times as there are elements are enough. -/
theorem Drains.popMany_eq (h : Drains q out r) : (popMany out.length q).1 = out := by
  induction h with
  | done _ => rfl
  | next hsome _ ih =>
      rw [List.length_cons, popMany, hsome]
      exact congrArg (_ :: ·) ih

theorem Drains.drain_eq (h : Drains q out r) : (drain q).1 = out := by
  have hsize : q.size = out.length := by
    rw [h.perm.1.length_eq]
    exact DynArray.size_eq_length q.heap
  rw [drain, hsize]
  exact h.popMany_eq

/-- A greatest element comes first, and the rest is in the order of a heap again. -/
theorem Proper.drains_descending (hq : q.Proper) (h : Drains q out r) :
    Descending q.less out := by
  induction h with
  | done _ => exact .nil
  | @next q r s v out hsome hrest ih =>
      obtain ⟨hhead, hperm, hless⟩ := pop?_eq_some hsome
      have hproper := hq.pop?
      rw [hsome] at hproper
      have hgreatest := (hq.greatestIn_head hhead).2
      have htail := ih hproper
      rw [hless] at htail
      refine .cons (fun e he => hgreatest e ?_) htail
      exact hperm.mem_iff.mpr (List.mem_cons_of_mem v (hrest.perm.1.mem_iff.mp he))

/-! ### Runs -/

/-- A queue that operations leave behind, each with memory of its own and with predicates that
order. -/
def Reached (q : PriorityQueue α) : Prop :=
  Workspace.Reached Command.effect Command.Orders q

theorem Reached.proper (h : Reached q) : q.Proper :=
  Workspace.Reached.holds h fun memory _ horders => Command.keeps_proper memory horders

/-- Queues that are all made with one predicate keep it. -/
theorem runEach_less {less : α → α → Bool} {operations : List (Place × Allocator × Command α)}
    (h : ∀ operation ∈ operations, ∀ made ∈ operation.2.2.predicate?, made = less)
    (place : Place) (q : PriorityQueue α)
    (hq : q ∈ (Workspace.vacant.runEach Command.effect operations).2.get place) :
    q.less = less := by
  refine Workspace.holds_runEach (P := fun q => q.less = less) (fun operation hmem => ?_) place q hq
  apply Command.keeps_of_single
  · intro made q hmade hq
    unfold PriorityQueue.new at hq
    split at hq
    · rw [← Except.ok.inj hq]
      exact h operation hmem made hmade
    · contradiction
  · intro q v hq
    exact (push_attempt operation.2.1 v q).leftBy hq fun r hr => hr.1.trans hq
  · exact fun q hq => (pop?_less q).trans hq
  · exact fun _ hq => hq

/-- Every queue that a run leaves behind can be drained in one way only, by as many removals
as it has elements.  Nothing is left of it, all of its elements are handed out, and none
that is less than a later one.  Two queues with the same elements and the same predicate
hand out the same row up to ties, however they came about; where only equal elements are
tied, it is the sorted row of those elements. -/
theorem run_drains_sorted (hq : Reached q) :
    (∃ out r, Drains q out r ∧ (∀ out' r', Drains q out' r' → out' = out ∧ r' = r) ∧
      (drain q).1 = out ∧ out.length = q.size ∧ out.Perm q.toList ∧ Descending q.less out ∧
      r.toList = [] ∧ r.less = q.less) ∧
    ∀ q', Reached q' → q'.less = q.less → q'.toList.Perm q.toList →
      ∀ out r out' r', Drains q out r → Drains q' out' r' →
        List.Forall₂ (Tied q.less) out out' ∧
        (Trichotomous q.less → out = out' ∧
          ∀ xs : List α, xs.Perm q.toList → out = sortedDown q.less xs) := by
  have hproper := hq.proper
  constructor
  · obtain ⟨out, r, hdrains⟩ := exists_drains q
    obtain ⟨hperm, hnil, hless⟩ := hdrains.perm
    refine ⟨out, r, hdrains, fun _ _ h => h.unique hdrains, hdrains.drain_eq, ?_, hperm,
      hproper.drains_descending hdrains, hnil, hless⟩
    rw [hperm.length_eq]
    exact (DynArray.size_eq_length q.heap).symm
  · intro q' hq' hless hsame out r out' r' hdrains hdrains'
    have hout := hproper.drains_descending hdrains
    have hout' := hq'.proper.drains_descending hdrains'
    rw [hless] at hout'
    have hperm : out.Perm out' :=
      hdrains.perm.1.trans (hsame.symm.trans hdrains'.perm.1.symm)
    refine ⟨hout.tied hproper.weak hout' hperm, fun htotal => ⟨?_, fun xs hxs => ?_⟩⟩
    · exact hout.eq_of_trichotomous hproper.weak htotal hout' hperm
    · refine hout.eq_of_trichotomous hproper.weak htotal (sortedDown_descending hproper.weak xs) ?_
      exact hdrains.perm.1.trans (hxs.symm.trans (sortedDown_perm q.less xs).symm)

namespace DrainingWitness

/-- Five numbers go in one by one and the greatest of them leaves again. -/
def operations : List (Place × Allocator × Command UInt8) :=
  [(.first, .addressSpace, .new (lessBy UInt8.toNat)), (.first, .addressSpace, .push 1),
    (.first, .addressSpace, .push 4), (.first, .addressSpace, .push 7),
    (.first, .addressSpace, .push 5), (.first, .addressSpace, .push 9),
    (.first, .addressSpace, .pop?)]

/-- The four that are left come in another order; then memory is lacking for a fifth. -/
def operations' : List (Place × Allocator × Command UInt8) :=
  [(.second, .addressSpace, .ofList (lessBy UInt8.toNat) [7, 4, 5, 1]),
    (.second, .upTo 4, .push 8)]

def left : Option (PriorityQueue UInt8) :=
  (Workspace.vacant.runEach Command.effect operations).2.first

def left' : Option (PriorityQueue UInt8) :=
  (Workspace.vacant.runEach Command.effect operations').2.second

theorem operations_order : ∀ operation ∈ operations, operation.2.2.Orders := by
  simp [operations, Command.Orders, weakOrder_lessBy]

theorem operations_order' : ∀ operation ∈ operations', operation.2.2.Orders := by
  simp [operations', Command.Orders, weakOrder_lessBy]

theorem trichotomous_toNat : Trichotomous (lessBy UInt8.toNat) := by
  intro a b ⟨hab, hba⟩
  simp only [lessBy, decide_eq_false_iff_not, not_lt] at hab hba
  exact UInt8.toNat_inj.mp (Nat.le_antisymm hba hab)

/-- Two heaps that are laid out differently hand out the same row. -/
theorem run_drains_sorted_layouts :
    ∃ q ∈ left, ∃ q' ∈ left', q.toList = [7, 5, 4, 1] ∧ q'.toList = [7, 4, 5, 1] ∧
      ∃ out r r', Drains q out r ∧ Drains q' out r' ∧ out = [7, 5, 4, 1] := by
  have hsome : left.isSome = true := by decide +kernel
  have hsome' : left'.isSome = true := by decide +kernel
  obtain ⟨q, hq⟩ := Option.isSome_iff_exists.mp hsome
  obtain ⟨q', hq'⟩ := Option.isSome_iff_exists.mp hsome'
  have hlist : left.map toList = some [7, 5, 4, 1] := by decide +kernel
  have hlist' : left'.map toList = some [7, 4, 5, 1] := by decide +kernel
  rw [hq, Option.map_some, Option.some_inj] at hlist
  rw [hq', Option.map_some, Option.some_inj] at hlist'
  have hless : q.less = lessBy UInt8.toNat :=
    runEach_less (by simp [operations, Command.predicate?]) .first q hq
  have hless' : q'.less = lessBy UInt8.toNat :=
    runEach_less (by simp [operations', Command.predicate?]) .second q' hq'
  have hreached' : Reached q' := ⟨operations', .second, operations_order', hq'⟩
  obtain ⟨⟨out, r, hdrains, -⟩, hsame⟩ :=
    run_drains_sorted ⟨operations, .first, operations_order, hq⟩
  obtain ⟨out', r', hdrains'⟩ := exists_drains q'
  have hperm : q'.toList.Perm q.toList := by
    rw [hlist, hlist']
    decide
  obtain ⟨-, htotal⟩ := hsame q' hreached' (hless'.trans hless.symm) hperm out r out' r' hdrains
    hdrains'
  rw [hless] at htotal
  obtain ⟨rfl, hsorted⟩ := htotal trichotomous_toNat
  have hdown : sortedDown (lessBy UInt8.toNat) [7, 5, 4, 1] = [7, 5, 4, 1] :=
    List.mergeSort_of_pairwise (by decide)
  have hout : out = [7, 5, 4, 1] := (hsorted _ (hlist ▸ .refl _)).trans hdown
  exact ⟨q, hq, q', hq', hlist, hlist', out, r, r', hdrains, hdrains', hout⟩

end DrainingWitness

end PriorityQueue

end Containers
