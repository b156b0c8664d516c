/-
The capacity of an array stays between the number of its elements and the largest
block of memory, and never falls below the minimum of the policy.  It is enough to
know that arrays which take elements in are widened, and arrays which give elements
away are narrowed.
-/
import Containers.DynArray.Command
import Containers.Proofs.Room

namespace Containers

namespace DynArray

variable {α : Type} [Element α]

/-- There is room for the elements, the capacity is no less than the minimum of the
policy, and there are blocks of that many elements. -/
structure Bounded (a : DynArray α) : Prop where
  fits : a.toList.length ≤ a.capacity
  above_min : a.policy.minCapacity ≤ a.capacity
  within_limit : a.capacity ≤ Element.limit α

/-! ### What keeps the bounds -/

theorem Widened.bounded {a b : DynArray α} {xs : List α} (h : Widened a xs b) (ha : a.Bounded) :
    b.Bounded where
  fits := h.toList_eq ▸ h.fits ha.fits
  above_min := h.policy_eq ▸ Nat.le_trans ha.above_min h.capacity_le
  within_limit := by
    rcases h.within_limit with hsame | hlimit
    · exact hsame ▸ ha.within_limit
    · exact hlimit

theorem Narrowed.bounded {a b : DynArray α} {xs : List α} (h : Narrowed a xs b) (ha : a.Bounded)
    (hle : xs.length ≤ a.toList.length) : b.Bounded where
  fits := h.toList_eq ▸ h.fits (Nat.le_trans hle ha.fits)
  above_min := by
    rw [h.policy_eq]
    rcases h.above_min with hsame | hmin
    · exact hsame ▸ ha.above_min
    · exact hmin
  within_limit := Nat.le_trans h.capacity_le ha.within_limit

/-- Elements can be exchanged for others where the capacity is not touched. -/
theorem Bounded.refill {a b : DynArray α} (ha : a.Bounded) (hpolicy : b.policy = a.policy)
    (hcapacity : b.capacity = a.capacity) (hle : b.toList.length ≤ a.capacity) : b.Bounded where
  fits := hcapacity ▸ hle
  above_min := hpolicy ▸ hcapacity ▸ ha.above_min
  within_limit := hcapacity ▸ ha.within_limit

theorem Bounded.rewrite {a : DynArray α} (ha : a.Bounded)
    (f : (xs : Array α) → { ys : Array α // ys.size = xs.size }) : (a.rewrite f).Bounded := by
  refine ha.refill rfl rfl ?_
  rw [toList_rewrite, Array.length_toList, (f a.toList.toArray).property, List.size_toArray]
  exact ha.fits

theorem Bounded.put {a : DynArray α} (ha : a.Bounded) (i : Nat) (v : α) : (a.put i v).Bounded :=
  ha.rewrite _

theorem Bounded.clear {a : DynArray α} (ha : a.Bounded) : a.clear.Bounded := by
  refine ha.refill rfl rfl ?_
  rw [toList_clear]
  exact Nat.zero_le _

theorem Bounded.removeAt {a : DynArray α} (ha : a.Bounded) (i : Nat) : (a.removeAt i).Bounded :=
  (removeAt_narrowed i a).bounded ha (List.length_eraseIdx_le a.toList i)

theorem Bounded.popBack? {a : DynArray α} (ha : a.Bounded) : (DynArray.popBack? a).2.Bounded := by
  apply (popBack?_narrowed a).bounded ha
  rw [List.length_dropLast]
  exact Nat.sub_le _ 1

theorem Bounded.popFront? {a : DynArray α} (ha : a.Bounded) :
    (DynArray.popFront? a).2.Bounded := by
  apply (popFront?_narrowed a).bounded ha
  rw [List.length_tail]
  exact Nat.sub_le _ 1

/-- An attempt to take elements in keeps the bounds, whether it is refused or not. -/
theorem Bounded.attempt {ε : Type} {IsShortage : ε → Prop} {a : DynArray α} (ha : a.Bounded)
    {xs : List α} {result : EStateM.Result ε (DynArray α) Unit}
    (h : Attempt IsShortage a (Widened a xs) result) : (leftBy result).Bounded :=
  h.leftBy ha fun _ hwide => hwide.bounded ha

/-! ### New arrays -/

theorem bounded_ofPolicy {memory : Allocator} {policy : Policy} {a : DynArray α}
    (h : ofPolicy memory policy = .ok a) : a.Bounded := by
  obtain ⟨hwide, hcapacity⟩ := ofPolicy_widened h
  have hpolicy : a.policy = policy := hwide.policy_eq
  have hpos : 1 ≤ policy.minCapacity := one_le_minCapacity policy
  refine ⟨?_, ?_, ?_⟩
  · rw [hwide.toList_eq]
    exact Nat.zero_le _
  · rw [hpolicy]
    exact Nat.le_of_eq hcapacity.symm
  · rcases hwide.within_limit with hsame | hlimit
    · have hzero : a.capacity = 0 := hsame
      omega
    · exact hlimit

theorem bounded_ofParameters {memory : Allocator} {parameters : Policy.Parameters}
    {a : DynArray α} (h : ofParameters memory parameters = .ok a) : a.Bounded := by
  obtain ⟨policy, -, hpolicy⟩ := exists_policy_of_ofParameters h
  exact bounded_ofPolicy hpolicy

theorem bounded_ofList {memory : Allocator} {xs : List α} {a : DynArray α}
    (h : ofList memory xs = .ok a) : a.Bounded := by
  obtain ⟨empty, hnew, hwide⟩ := ofList_widened h
  exact hwide.bounded (bounded_ofPolicy hnew)

theorem bounded_ofBlock {memory : Allocator} {xs : List α} {a : DynArray α}
    (h : ofBlock memory xs = .ok a) : a.Bounded := by
  obtain ⟨empty, hnew, hbuilt⟩ := bind_eq_ok h
  have hextend := extendBy_attempt memory (Storage.ofList xs) empty
  exact (hextend.of_ok (built_eq_ok hbuilt)).bounded (bounded_ofPolicy hnew)

/-- A copy has the capacity of the array that it is a copy of. -/
theorem Bounded.clone {memory : Allocator} {a b : DynArray α} (ha : a.Bounded)
    (h : DynArray.clone memory a = .ok b) : b.Bounded := by
  obtain ⟨empty, roomy, hempty, hroomy, rfl⟩ := clone_eq_ok h
  obtain ⟨hwide, hcapacity⟩ := (reserve_attempt memory a.capacity empty).of_ok hroomy
  have hbounded : roomy.Bounded := hwide.bounded (bounded_ofPolicy hempty)
  have hnil : roomy.toList = [] := hwide.toList_eq.trans (ofPolicy_widened hempty).1.toList_eq
  have hlist : Storage.toList (Storage.append roomy.store a.store) = a.toList := by
    rw [Storage.toList_append]
    change roomy.toList ++ a.toList = a.toList
    rw [hnil, List.nil_append]
  refine hbounded.refill rfl rfl ?_
  change (Storage.toList (Storage.append roomy.store a.store)).length ≤ roomy.capacity
  rw [hlist]
  exact Nat.le_trans ha.fits hcapacity

/-! ### Runs -/

theorem popBack_eq_elim (a : DynArray α) :
    popBack a = (popBack? a).1.elim (.error (.empty .pop .array) (popBack? a).2)
      (.ok · (popBack? a).2) := by
  unfold popBack
  rcases popBack? a with ⟨_ | v, rest⟩ <;> rfl

theorem leftBy_popBack (a : DynArray α) : leftBy (popBack a) = (popBack? a).2 := by
  rw [popBack_eq_elim, leftBy_elim]

theorem popFront_eq_elim (a : DynArray α) :
    popFront a = (popFront? a).1.elim (.error (.empty .pop .array) (popFront? a).2)
      (.ok · (popFront? a).2) := by
  unfold popFront
  rcases popFront? a with ⟨_ | v, rest⟩ <;> rfl

theorem leftBy_popFront (a : DynArray α) : leftBy (popFront a) = (popFront? a).2 := by
  rw [popFront_eq_elim, leftBy_elim]

theorem leftBy_erase (i : Nat) (a : DynArray α) : leftBy (erase i a) = leftBy (remove i a) :=
  leftBy_map _ (remove i) a

theorem Bounded.set {a : DynArray α} (ha : a.Bounded) (i : Nat) (v : α) :
    (leftBy (DynArray.set i v a)).Bounded := by
  unfold DynArray.set
  cases a.get? i with
  | some previous => exact ha.put i v
  | none => exact ha

theorem Bounded.setChecked {a : DynArray α} (ha : a.Bounded) (i : Nat) (v : α) :
    (leftBy (DynArray.setChecked i v a)).Bounded := by
  unfold DynArray.setChecked
  cases a.get? i with
  | some previous => exact ha.put i v
  | none => exact ha

theorem Bounded.set? {a : DynArray α} (ha : a.Bounded) (i : Nat) (v : α) :
    (DynArray.set? i v a).2.Bounded := by
  unfold DynArray.set?
  cases a.get? i with
  | some previous => exact ha.put i v
  | none => exact ha

theorem Bounded.setBack? {a : DynArray α} (ha : a.Bounded) (v : α) :
    (DynArray.setBack? v a).2.Bounded := by
  unfold DynArray.setBack?
  split
  · exact ha
  · exact ha.set? _ v

theorem Bounded.insert {a : DynArray α} (ha : a.Bounded) (memory : Allocator) (i : Nat) (v : α) :
    (leftBy (DynArray.insert memory i v a)).Bounded := by
  by_cases hi : i ≤ a.toList.length
  · exact ha.attempt (insert_attempt memory v hi)
  · unfold DynArray.insert
    rw [size_eq_length, if_pos (Nat.lt_of_not_le hi)]
    exact ha

theorem Bounded.remove {a : DynArray α} (ha : a.Bounded) (i : Nat) :
    (leftBy (DynArray.remove i a)).Bounded := by
  unfold DynArray.remove
  cases a.get? i with
  | some v => exact ha.removeAt i
  | none => exact ha

theorem Bounded.removeChecked {a : DynArray α} (ha : a.Bounded) (i : Nat) :
    (leftBy (DynArray.removeChecked i a)).Bounded := by
  unfold DynArray.removeChecked
  cases a.get? i with
  | some v => exact ha.removeAt i
  | none => exact ha

/-- The array that is emptied keeps its capacity. -/
theorem Bounded.append {a b : DynArray α} (ha : a.Bounded) (hb : b.Bounded)
    (memory : Allocator) :
    (leftBy (DynArray.append memory (a, b))).1.Bounded ∧
      (leftBy (DynArray.append memory (a, b))).2.Bounded := by
  have hextend := ha.attempt (extendBy_attempt memory b.store a)
  unfold DynArray.append
  dsimp only
  generalize extendBy memory b.store a = result at hextend ⊢
  cases result with
  | ok reply c => exact ⟨hextend, hb.clear⟩
  | error error c => exact ⟨hextend, hb⟩

theorem Command.keeps_bounded (memory : Allocator) (command : Command α) :
    (command.effect memory).Keeps Bounded := by
  cases command with
  | new => exact fun a ha => bounded_ofPolicy (mapError_eq_ok ha)
  | ofParameters parameters => exact fun a ha => bounded_ofParameters (mapError_eq_ok ha)
  | ofList xs => exact fun a ha => bounded_ofList (mapError_eq_ok ha)
  | ofBlock xs => exact fun a ha => bounded_ofBlock (mapError_eq_ok ha)
  | clone => exact fun a b ha hb => ha.clone (mapError_eq_ok hb)
  | get i => exact Effect.keeps_lookAsserted _
  | getChecked i => exact Effect.keeps_lookChecked _
  | front => exact Effect.keeps_lookAsserted _
  | back => exact Effect.keeps_lookAsserted _
  | front? => exact Effect.keeps_look _
  | back? => exact Effect.keeps_look _
  | set i v =>
      refine Effect.keeps_asserted fun a ha => ?_
      rw [leftBy_map]
      exact ha.set i v
  | setChecked i v =>
      refine Effect.keeps_refusable fun a ha => ?_
      rw [leftBy_adaptExcept, leftBy_map]
      exact ha.setChecked i v
  | setFront? v => exact Effect.keeps_total fun a ha => ha.set? 0 v
  | setBack? v => exact Effect.keeps_total fun a ha => ha.setBack? v
  | rewrite f => exact fun a (ha : a.Bounded) => ha.rewrite f
  | reserve capacity =>
      refine Effect.keeps_refusable fun a ha => ?_
      rw [leftBy_adaptExcept, leftBy_silently]
      exact (reserve_attempt memory capacity a).leftBy ha fun b hb => hb.1.bounded ha
  | pushBack v =>
      refine Effect.keeps_refusable fun a ha => ?_
      rw [leftBy_adaptExcept, leftBy_silently]
      exact ha.attempt (pushBack_attempt memory v a)
  | pushFront v =>
      refine Effect.keeps_refusable fun a ha => ?_
      rw [leftBy_adaptExcept, leftBy_silently]
      exact ha.attempt (insertAt_attempt memory 0 v a)
  | insert i v =>
      refine Effect.keeps_failing fun a ha => ?_
      rw [leftBy_silently]
      exact ha.insert memory i v
  | extendBy more =>
      refine Effect.keeps_refusable fun a ha => ?_
      rw [leftBy_adaptExcept, leftBy_silently]
      exact ha.attempt (extendBy_attempt memory more a)
  | append =>
      refine Effect.keeps_jointRefusable fun a b ha hb => ?_
      rw [leftBy_adaptExcept, leftBy_silently]
      exact ha.append hb memory
  | popBack =>
      refine Effect.keeps_asserted fun a ha => ?_
      rw [leftBy_map, leftBy_popBack]
      exact ha.popBack?
  | popFront =>
      refine Effect.keeps_asserted fun a ha => ?_
      rw [leftBy_map, leftBy_popFront]
      exact ha.popFront?
  | popBack? => exact Effect.keeps_total fun a ha => ha.popBack?
  | popFront? => exact Effect.keeps_total fun a ha => ha.popFront?
  | remove i =>
      refine Effect.keeps_asserted fun a ha => ?_
      rw [leftBy_map]
      exact ha.remove i
  | removeChecked i =>
      refine Effect.keeps_refusable fun a ha => ?_
      rw [leftBy_adaptExcept, leftBy_map]
      exact ha.removeChecked i
  | erase i =>
      refine Effect.keeps_asserted fun a ha => ?_
      rw [leftBy_silently, leftBy_erase]
      exact ha.remove i
  | clear => exact fun a (ha : a.Bounded) => ha.clear
  | drain => exact fun a (ha : a.Bounded) => ha.clear
  | exchange => exact fun a b ha hb => ⟨hb, ha⟩

theorem run_bounded (operations : List (Place × Allocator × Command α)) :
    (Workspace.vacant.runEach Command.effect operations).2.Holds Bounded :=
  Workspace.holds_runEach fun operation _ =>
    Command.keeps_bounded operation.2.1 operation.2.2

/-- Every array that a run leaves behind keeps to the bounds of its capacity.  So an
array is full exactly when the test for it says so, and what is shrunk to has room for
the elements. -/
theorem run_bounds_capacity (operations : List (Place × Allocator × Command α))
    (place : Place) (a : DynArray α)
    (ha : a ∈ (Workspace.vacant.runEach Command.effect operations).2.get place) :
    a.size ≤ a.capacity ∧ a.policy.minCapacity ≤ a.capacity ∧ 1 ≤ a.capacity ∧
      a.capacity ≤ (if Element.bytes α = 0 then maxSize else maxBytes / Element.bytes α) ∧
      (a.policy.shouldGrow a.size a.capacity = true ↔ a.capacity ≤ a.size) ∧
      ∀ size target, a.policy.shrunk? a.capacity size = some target → size ≤ target := by
  have hbounded : a.Bounded := run_bounded operations place a ha
  have hsize : a.size ≤ a.capacity := a.size_eq_length ▸ hbounded.fits
  refine ⟨hsize, hbounded.above_min, ?_, hbounded.within_limit, ?_, ?_⟩
  · exact Nat.le_trans (one_le_minCapacity a.policy) hbounded.above_min
  · rw [Policy.shouldGrow, beq_iff_eq]
    exact ⟨fun heq => Nat.le_of_eq heq.symm, fun hle => Nat.le_antisymm hsize hle⟩
  · intro size target hshrunk
    exact (shrunk?_bounds hshrunk).2.1

namespace CapacityBoundsWitness

/-- Grow by one half, shrink at a quarter, never below two. -/
def byHalf : Policy.Parameters := ⟨⟨0x3ff8000000000000⟩, ⟨0x3fd0000000000000⟩, 2⟩

/-- An array grows, takes in what another one holds, and shrinks after both were
exchanged; a copy, a wrong index and an addition that finds no memory are among the
operations. -/
def operations : List (Place × Allocator × Command UInt8) :=
  [(.first, .addressSpace, .ofParameters byHalf), (.second, .addressSpace, .ofList [7, 8, 9]),
    (.first, .addressSpace, .pushBack 1), (.first, .addressSpace, .pushFront 2),
    (.first, .exhausted, .pushBack 0), (.first, .addressSpace, .insert 1 3),
    (.first, .addressSpace, .append), (.first, .addressSpace, .exchange),
    (.second, .addressSpace, .removeChecked 9), (.second, .addressSpace, .popBack?),
    (.second, .addressSpace, .popFront?), (.second, .addressSpace, .remove 0),
    (.second, .addressSpace, .remove 0), (.second, .addressSpace, .clone)]

def left : Option (DynArray UInt8) :=
  (Workspace.vacant.runEach Command.effect operations).2.get .first

theorem run_bounds_capacity_copied :
    ∃ a ∈ left, a.toList.length = 2 ∧ a.capacity = 5 ∧ a.policy.minCapacity = 2 ∧
      (a.policy.shouldGrow a.size a.capacity = true ↔ a.capacity ≤ a.size) := by
  have hsome : left.isSome = true := by decide +kernel
  obtain ⟨a, ha⟩ := Option.isSome_iff_exists.mp hsome
  have hnumbers : left.map (fun a => (a.toList.length, a.capacity, a.policy.minCapacity)) =
      some (2, 5, 2) := by decide +kernel
  rw [ha, Option.map_some, Option.some_inj, Prod.mk.injEq, Prod.mk.injEq] at hnumbers
  obtain ⟨hlength, hcapacity, hmin⟩ := hnumbers
  obtain ⟨-, -, -, -, hfull, -⟩ := run_bounds_capacity operations .first a ha
  exact ⟨a, ha, hlength, hcapacity, hmin, hfull⟩

end CapacityBoundsWitness

end DynArray

end Containers
