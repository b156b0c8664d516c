/-
The numbers of an array: how many elements it holds, how many there is room for, and
how often that changed.  An operation on single elements moves them in one of five
ways, and these say all that there is to know about growing and shrinking.
-/
import Containers.Proofs.CapacityBounds

namespace Containers

/-! ### How the numbers move -/

/-- The numbers of an array. -/
structure Gauge where
  size : Nat
  capacity : Nat
  reallocations : Nat

/-- How one operation moves the numbers of an array. -/
inductive Gauge.Step (p : Policy) : Gauge → Gauge → Prop
  | still (gauge : Gauge) : Step p gauge gauge
  /-- There was room for an element. -/
  | added {size capacity count : Nat} (hroom : size ≠ capacity) :
      Step p ⟨size, capacity, count⟩ ⟨size + 1, capacity, count⟩
  /-- A full array took an element in. -/
  | grown {capacity next count : Nat} (hnext : p.grown? capacity = some next) :
      Step p ⟨capacity, capacity, count⟩ ⟨capacity + 1, next, count + 1⟩
  /-- An element was given away and the capacity stayed. -/
  | removed {size capacity count : Nat}
      (hstays : p.shouldShrink size capacity = false ∨ p.shrunk? capacity size = none) :
      Step p ⟨size + 1, capacity, count⟩ ⟨size, capacity, count⟩
  /-- An element was given away and left the array sparse. -/
  | shrunk {size capacity next count : Nat} (hsparse : p.shouldShrink size capacity = true)
      (hnext : p.shrunk? capacity size = some next) :
      Step p ⟨size + 1, capacity, count⟩ ⟨size, next, count + 1⟩

namespace Gauge.Step

variable {p : Policy} {x y : Gauge}

/-- Every change of the capacity is counted, and nothing else is. -/
theorem counted (h : Step p x y) :
    y.reallocations = x.reallocations + if y.capacity = x.capacity then 0 else 1 := by
  cases h with
  | still | added | removed => simp
  | grown hnext => simp [Nat.ne_of_gt (Policy.lt_of_grown? hnext)]
  | shrunk _ hnext => simp [Nat.ne_of_lt (DynArray.shrunk?_bounds hnext).2.2]

/-- The capacity goes up only where a full array took an element in. -/
theorem of_raised (h : Step p x y) (hless : x.capacity < y.capacity) :
    x.size = x.capacity ∧ y.size = x.size + 1 ∧ p.grown? x.capacity = some y.capacity := by
  cases h with
  | still | added | removed => exact absurd hless (Nat.lt_irrefl _)
  | grown hnext => exact ⟨rfl, rfl, hnext⟩
  | shrunk _ hnext => exact absurd hless (Nat.lt_asymm (DynArray.shrunk?_bounds hnext).2.2)

/-- The capacity goes down only where an element was given away. -/
theorem of_lowered (h : Step p x y) (hless : y.capacity < x.capacity) :
    x.size = y.size + 1 ∧ p.shouldShrink y.size x.capacity = true ∧
      p.shrunk? x.capacity y.size = some y.capacity := by
  cases h with
  | still | added | removed => exact absurd hless (Nat.lt_irrefl _)
  | grown hnext => exact absurd hless (Nat.lt_asymm (Policy.lt_of_grown? hnext))
  | shrunk hsparse hnext => exact ⟨rfl, hsparse, hnext⟩

end Gauge.Step

/-- The capacity after an operation on single elements that leaves this many of them. -/
def Policy.capacityAfter (p : Policy) (size capacity left : Nat) : Nat :=
  if size < left then
    if size = capacity then (p.grown? capacity).getD capacity else capacity
  else if left < size ∧ p.shouldShrink left capacity = true then
    (p.shrunk? capacity left).getD capacity
  else capacity

/-- How many elements are left tells which way the numbers moved. -/
theorem Gauge.Step.capacity_eq {p : Policy} {x y : Gauge} (h : Step p x y) :
    y.capacity = p.capacityAfter x.size x.capacity y.size := by
  cases h with
  | still => simp [Policy.capacityAfter]
  | added hroom => simp [Policy.capacityAfter, hroom]
  | grown hnext => simp [Policy.capacityAfter, hnext]
  | @removed size _ _ hstays =>
      have hless : ¬ size + 1 < size := Nat.not_lt.mpr (Nat.le_succ size)
      rcases hstays with hdense | hnone
      · simp [Policy.capacityAfter, hless, hdense]
      · simp [Policy.capacityAfter, hless, hnone]
  | @shrunk size _ _ _ hsparse hnext =>
      have hless : ¬ size + 1 < size := Nat.not_lt.mpr (Nat.le_succ size)
      simp [Policy.capacityAfter, hless, hsparse, hnext]

namespace DynArray

variable {α : Type} [Element α]

def gauge (a : DynArray α) : Gauge := ⟨a.toList.length, a.capacity, a.reallocations⟩

/-- One array became the other one by an operation on single elements. -/
structure Moved (a b : DynArray α) : Prop where
  policy_eq : b.policy = a.policy
  step : Gauge.Step a.policy a.gauge b.gauge

theorem Moved.of_gauge_eq {a b : DynArray α} (hpolicy : b.policy = a.policy)
    (hgauge : b.gauge = a.gauge) : Moved a b :=
  ⟨hpolicy, by rw [hgauge]; exact .still a.gauge⟩

theorem moved_self (a : DynArray α) : Moved a a := .of_gauge_eq rfl rfl

theorem Moved.counted {a b : DynArray α} (h : Moved a b) :
    b.reallocations = a.reallocations + if b.capacity = a.capacity then 0 else 1 :=
  h.step.counted

/-- Arrays of the same numbers that are left with equally many elements are left with the
same capacity. -/
theorem Moved.capacity_eq {a b c d : DynArray α} (hac : Moved a c) (hbd : Moved b d)
    (hpolicy : a.policy = b.policy) (hlength : a.toList.length = b.toList.length)
    (hcapacity : a.capacity = b.capacity) (hleft : c.toList.length = d.toList.length) :
    c.capacity = d.capacity := by
  have hc := hac.step.capacity_eq
  have hd := hbd.step.capacity_eq
  simp only [gauge] at hc hd
  rw [hc, hd, hpolicy, hlength, hcapacity, hleft]

/-! ### Making room -/

/-- There are blocks for this many elements, and the memory grants one. -/
def HasBlock (memory : Allocator) (α : Type) [Element α] (capacity : Nat) : Prop :=
  capacity ≤ Element.limit α ∧ memory.grants (capacity * Element.bytes α) = true

theorem reallocate_of_hasBlock {memory : Allocator} {capacity : Nat} (a : DynArray α)
    (h : HasBlock memory α capacity) :
    reallocate memory capacity a = .ok () (a.withCapacity capacity) := by
  rw [reallocate, if_neg (Nat.not_lt.mpr h.1), if_pos h.2]

theorem reallocate_of_not_hasBlock {memory : Allocator} {capacity : Nat} (a : DynArray α)
    (h : ¬ HasBlock memory α capacity) :
    ∃ error, reallocate memory capacity a = .error error a := by
  by_cases hlimit : capacity ≤ Element.limit α
  · have hnot : ¬ memory.grants (capacity * Element.bytes α) = true := fun hgrants =>
      h ⟨hlimit, hgrants⟩
    exact ⟨_, by rw [reallocate, if_neg (Nat.not_lt.mpr hlimit), if_neg hnot]⟩
  · exact ⟨_, by rw [reallocate, if_pos (Nat.lt_of_not_le hlimit)]⟩

theorem reallocate_eq_ok {memory : Allocator} {target : Nat} {a b : DynArray α}
    (h : reallocate memory target a = .ok () b) : b = a.withCapacity target := by
  unfold reallocate at h
  split at h
  · contradiction
  · split at h
    · exact (EStateM.Result.ok.inj h).2.symm
    · contradiction

/-- The ways in which room for one more element is made, or is not. -/
inductive RoomForOne (memory : Allocator) (a : DynArray α) :
    EStateM.Result ArrayError (DynArray α) Unit → Prop
  | there (hroom : a.toList.length ≠ a.capacity) : RoomForOne memory a (.ok () a)
  | made {next : Nat} (hfull : a.toList.length = a.capacity)
      (hnext : a.policy.grown? a.capacity = some next) (hblock : HasBlock memory α next) :
      RoomForOne memory a (.ok () (a.withCapacity next))
  | none {error : ArrayError} (hfull : a.toList.length = a.capacity)
      (hstuck : ∀ next, a.policy.grown? a.capacity = some next → ¬ HasBlock memory α next) :
      RoomForOne memory a (.error error a)

theorem reserveOne_roomForOne (memory : Allocator) (a : DynArray α) :
    RoomForOne memory a (reserveOne memory a) := by
  have hisFull : a.isFull = (a.toList.length == a.capacity) := by
    rw [isFull, Policy.shouldGrow, size_eq_length]
  by_cases hfull : a.toList.length = a.capacity
  · rw [reserveOne, if_pos (hisFull.trans (beq_iff_eq.mpr hfull)), grow]
    cases hnext : a.policy.grown? a.capacity with
    | none => exact .none hfull (by simp [hnext])
    | some next =>
        dsimp only
        by_cases hblock : HasBlock memory α next
        · rw [reallocate_of_hasBlock a hblock]
          exact .made hfull hnext hblock
        · obtain ⟨error, herror⟩ := reallocate_of_not_hasBlock a hblock
          rw [herror]
          refine .none hfull ?_
          rintro _ hsome
          rwa [← Option.some.inj (hnext.symm.trans hsome)]
  · have hnot : ¬ a.isFull = true := by simpa [hisFull] using hfull
    rw [reserveOne, if_neg hnot]
    exact .there hfull

/-- The ways in which room for `required` elements is made, or is not. -/
inductive RoomForMany (memory : Allocator) (a : DynArray α) (required : Nat) :
    EStateM.Result ArrayError (DynArray α) Unit → Prop
  | there (hroom : required ≤ a.capacity) : RoomForMany memory a required (.ok () a)
  | made {target : Nat} (hfull : a.capacity < required)
      (hclimb : a.policy.climb? required a.capacity = some target)
      (hblock : HasBlock memory α target) :
      RoomForMany memory a required (.ok () (a.withCapacity target))
  | none {error : ArrayError} (hfull : a.capacity < required)
      (hstuck : ∀ target, a.policy.climb? required a.capacity = some target →
        ¬ HasBlock memory α target) : RoomForMany memory a required (.error error a)

/-- At most one block is asked for. -/
theorem reserveFor_roomForMany (memory : Allocator) (additional : Nat) {a : DynArray α}
    (ha : a.Bounded) :
    RoomForMany memory a (a.toList.length + additional) (reserveFor memory additional a) := by
  have hsize : Element.limit α ≤ maxSize := slotLimit_le_maxSize (Element.bytes α)
  rw [reserveFor, size_eq_length]
  cases hsum : sizeSum? a.toList.length additional with
  | none =>
      have hover := sizeSum?_eq_none_iff.mp hsum
      refine .none (Nat.lt_of_le_of_lt (Nat.le_trans ha.within_limit hsize) hover) ?_
      rintro target hclimb ⟨hlimit, -⟩
      have henough := (le_of_climb? hclimb).1
      omega
  | some required =>
      obtain ⟨rfl, -⟩ := sizeSum?_eq_some_iff.mp hsum
      dsimp only
      split
      · exact .there (by assumption)
      · rename_i hfull
        rw [Nat.not_le] at hfull
        cases hclimb : a.policy.climb? (a.toList.length + additional) a.capacity with
        | none => exact .none hfull (by simp [hclimb])
        | some target =>
            dsimp only
            by_cases hblock : HasBlock memory α target
            · rw [reallocate_of_hasBlock a hblock]
              exact .made hfull hclimb hblock
            · obtain ⟨error, herror⟩ := reallocate_of_not_hasBlock a hblock
              rw [herror]
              refine .none hfull ?_
              rintro _ hsome
              rwa [← Option.some.inj (hclimb.symm.trans hsome)]

/-- Room for one more element is filled. -/
theorem RoomForOne.moved {memory : Allocator} {a b : DynArray α} {store : Element.Store α}
    (h : RoomForOne memory a (.ok () b))
    (hlength : (Storage.toList store).length = a.toList.length + 1) :
    Moved a { b with store := store } := by
  cases h with
  | there hroom =>
      refine ⟨rfl, ?_⟩
      change Gauge.Step a.policy a.gauge ⟨(Storage.toList store).length, _, _⟩
      rw [hlength]
      exact .added hroom
  | made hfull hnext _ =>
      refine ⟨rfl, ?_⟩
      change Gauge.Step a.policy ⟨a.toList.length, _, _⟩ ⟨(Storage.toList store).length, _, _⟩
      rw [hlength, hfull]
      exact .grown hnext

theorem pushBack_moved (memory : Allocator) (v : α) (a : DynArray α) :
    Moved a (leftBy (pushBack memory v a)) := by
  have hroom := reserveOne_roomForOne memory a
  rw [pushBack]
  generalize reserveOne memory a = result at hroom ⊢
  cases result with
  | ok _ b =>
      have hlist : b.toList = a.toList := by cases hroom <;> rfl
      refine hroom.moved ?_
      rw [Storage.toList_push, List.length_append, ← hlist]
      rfl
  | error _ b =>
      cases hroom
      exact moved_self a

theorem insertAt_moved (memory : Allocator) {i : Nat} (v : α) {a : DynArray α}
    (hi : i ≤ a.toList.length) : Moved a (leftBy (insertAt memory i v a)) := by
  have hroom := reserveOne_roomForOne memory a
  rw [insertAt]
  generalize reserveOne memory a = result at hroom ⊢
  cases result with
  | ok _ b =>
      have hlist : b.toList = a.toList := by cases hroom <;> rfl
      refine hroom.moved ?_
      rw [← hlist] at hi ⊢
      rw [Storage.toList_insert]
      exact List.length_insertIdx_of_le_length hi v
  | error _ b =>
      cases hroom
      exact moved_self a

theorem pushFront_moved (memory : Allocator) (v : α) (a : DynArray α) :
    Moved a (leftBy (pushFront memory v a)) :=
  insertAt_moved memory v (Nat.zero_le a.toList.length)

theorem insert_moved (memory : Allocator) (i : Nat) (v : α) (a : DynArray α) :
    Moved a (leftBy (insert memory i v a)) := by
  rw [insert, size_eq_length]
  split
  · exact moved_self a
  · rename_i hi
    rw [leftBy_adaptExcept]
    exact insertAt_moved memory v (Nat.le_of_not_lt hi)

/-! ### One element after the other -/

/-- The elements `xs` were added to `a` at the back one by one, each with memory of its own,
which made `b` of it. -/
inductive Pushed : DynArray α → List α → DynArray α → Prop
  | nil (a : DynArray α) : Pushed a [] a
  | cons {memory : Allocator} {v : α} {vs : List α} {a b c : DynArray α}
      (hpush : pushBack memory v a = .ok () b) (hrest : Pushed b vs c) : Pushed a (v :: vs) c

theorem pushed_of_pushBackAll {memory : Allocator} {xs : List α} {a b : DynArray α}
    (h : pushBackAll memory xs a = .ok () b) : Pushed a xs b := by
  induction xs generalizing a with
  | nil =>
      obtain rfl : a = b := by simpa [pushBackAll] using h
      exact .nil a
  | cons v vs ih =>
      rw [pushBackAll] at h
      split at h
      · rename_i hpush
        exact .cons hpush (ih h)
      · contradiction

/-! ### Giving elements away -/

/-- The search for a smaller capacity comes after an element was given away. -/
theorem shrinkIfSparse_moved {a : DynArray α} {store : Element.Store α}
    (hlength : a.toList.length = (Storage.toList store).length + 1) :
    Moved a (shrinkIfSparse { a with store := store }) := by
  have hsize : ({ a with store := store } : DynArray α).size = (Storage.toList store).length :=
    size_eq_length _
  have hgauge : a.gauge = ⟨(Storage.toList store).length + 1, a.capacity, a.reallocations⟩ := by
    rw [gauge, hlength]
  rw [shrinkIfSparse, hsize]
  split
  · rename_i hsparse
    split
    · rename_i hnone
      exact ⟨rfl, hgauge ▸ .removed (.inr hnone)⟩
    · rename_i next hnext
      exact ⟨rfl, hgauge ▸ .shrunk hsparse hnext⟩
  · rename_i hdense
    exact ⟨rfl, hgauge ▸ .removed (.inl (by simpa using hdense))⟩

theorem removeAt_moved {i : Nat} {a : DynArray α} {v : α} (h : a.get? i = some v) :
    Moved a (a.removeAt i) := by
  obtain ⟨hi, -⟩ := List.getElem?_eq_some_iff.mp ((get?_eq_getElem? a i).symm.trans h)
  refine shrinkIfSparse_moved ?_
  rw [Storage.toList_erase]
  have hlength : (a.toList.eraseIdx i).length = a.toList.length - 1 :=
    List.length_eraseIdx_of_lt hi
  change a.toList.length = (a.toList.eraseIdx i).length + 1
  omega

theorem remove_moved (i : Nat) (a : DynArray α) : Moved a (leftBy (remove i a)) := by
  rw [remove]
  split
  · exact removeAt_moved (by assumption)
  · exact moved_self a

theorem removeChecked_moved (i : Nat) (a : DynArray α) :
    Moved a (leftBy (removeChecked i a)) := by
  rw [removeChecked]
  split
  · exact removeAt_moved (by assumption)
  · exact moved_self a

theorem popFront?_moved (a : DynArray α) : Moved a (popFront? a).2 := by
  rw [popFront?]
  split
  · exact removeAt_moved (by assumption)
  · exact moved_self a

theorem popBack?_moved (a : DynArray α) : Moved a (popBack? a).2 := by
  rw [popBack?]
  split
  · rename_i v hback
    have hne : a.toList ≠ [] := by
      rintro hnil
      simp [back?_eq_getLast?, hnil] at hback
    refine shrinkIfSparse_moved ?_
    have hpos : 0 < a.toList.length := List.length_pos_iff.mpr hne
    have hlength : (Storage.toList (Storage.pop a.store)).length = a.toList.length - 1 := by
      rw [Storage.toList_pop, List.length_dropLast]
      rfl
    omega
  · exact moved_self a

/-! ### Overwriting -/

/-- One array became the other one without a change of its numbers. -/
structure Overwritten (a b : DynArray α) : Prop where
  policy_eq : b.policy = a.policy
  gauge_eq : b.gauge = a.gauge

theorem overwritten_self (a : DynArray α) : Overwritten a a := ⟨rfl, rfl⟩

theorem Overwritten.moved {a b : DynArray α} (h : Overwritten a b) : Moved a b :=
  .of_gauge_eq h.policy_eq h.gauge_eq

theorem rewrite_overwritten (f : (xs : Array α) → { ys : Array α // ys.size = xs.size })
    (a : DynArray α) : Overwritten a (a.rewrite f) := by
  refine ⟨rfl, ?_⟩
  have hlength : (a.rewrite f).toList.length = a.toList.length := by
    rw [toList_rewrite, Array.length_toList, (f a.toList.toArray).property, List.size_toArray]
  exact congrArg (Gauge.mk · a.capacity a.reallocations) hlength

theorem put_overwritten (i : Nat) (v : α) (a : DynArray α) : Overwritten a (a.put i v) :=
  rewrite_overwritten _ a

theorem set_overwritten (i : Nat) (v : α) (a : DynArray α) :
    Overwritten a (leftBy (set i v a)) := by
  rw [set]
  split
  · exact put_overwritten i v a
  · exact overwritten_self a

theorem setChecked_overwritten (i : Nat) (v : α) (a : DynArray α) :
    Overwritten a (leftBy (setChecked i v a)) := by
  rw [setChecked]
  split
  · exact put_overwritten i v a
  · exact overwritten_self a

theorem set?_overwritten (i : Nat) (v : α) (a : DynArray α) : Overwritten a (set? i v a).2 := by
  rw [set?]
  split
  · exact put_overwritten i v a
  · exact overwritten_self a

theorem setBack?_overwritten (v : α) (a : DynArray α) : Overwritten a (setBack? v a).2 := by
  rw [setBack?]
  split
  · exact overwritten_self a
  · exact set?_overwritten _ v a

/-! ### Operations on single elements -/

/-- Looks at elements, overwrites them where they are, or adds or takes away one. -/
def Command.IsSingle : Command α → Prop
  | new | ofParameters _ | ofList _ | ofBlock _ | clone => False
  | reserve _ | extendBy _ | append | clear | drain | exchange => False
  | _ => True

theorem Command.isWork {command : Command α} (h : command.IsSingle) (memory : Allocator) :
    (command.effect memory).IsWork := by
  cases command <;> first | contradiction | trivial

/-- Takes an element in. -/
def Command.IsAddition : Command α → Prop
  | pushBack _ | pushFront _ | insert _ _ => True
  | _ => False

/-- Gives an element away. -/
def Command.IsRemoval : Command α → Prop
  | popBack | popFront | popBack? | popFront? | remove _ | removeChecked _ | erase _ => True
  | _ => False

theorem Command.moved_of_isAddition {command : Command α} (h : command.IsAddition)
    (memory : Allocator) (a : DynArray α) : Moved a ((command.effect memory).after a) := by
  cases command with
  | pushBack v => simpa [effect] using pushBack_moved memory v a
  | pushFront v => simpa [effect] using pushFront_moved memory v a
  | insert i v => simpa [effect] using insert_moved memory i v a
  | _ => contradiction

theorem Command.moved_of_isRemoval {command : Command α} (h : command.IsRemoval)
    (memory : Allocator) (a : DynArray α) : Moved a ((command.effect memory).after a) := by
  cases command with
  | popBack => simpa [effect, leftBy_popBack] using popBack?_moved a
  | popFront => simpa [effect, leftBy_popFront] using popFront?_moved a
  | popBack? => exact popBack?_moved a
  | popFront? => exact popFront?_moved a
  | remove i => simpa [effect] using remove_moved i a
  | removeChecked i => simpa [effect] using removeChecked_moved i a
  | erase i => simpa [effect, leftBy_erase] using remove_moved i a
  | _ => contradiction

/-- All other operations on single elements read or overwrite. -/
theorem Command.overwritten {command : Command α} (h : command.IsSingle)
    (haddition : ¬ command.IsAddition) (hremoval : ¬ command.IsRemoval) (memory : Allocator)
    (a : DynArray α) : Overwritten a ((command.effect memory).after a) := by
  cases command with
  | get | getChecked | front | back | front? | back? => simpa [effect] using overwritten_self a
  | set i v => simpa [effect] using set_overwritten i v a
  | setChecked i v => simpa [effect] using setChecked_overwritten i v a
  | setFront? v => exact set?_overwritten 0 v a
  | setBack? v => exact setBack?_overwritten v a
  | rewrite f => exact rewrite_overwritten f a
  | _ => contradiction

theorem Command.moved {command : Command α} (h : command.IsSingle) (memory : Allocator)
    (a : DynArray α) : Moved a ((command.effect memory).after a) := by
  by_cases haddition : command.IsAddition
  · exact moved_of_isAddition haddition memory a
  · by_cases hremoval : command.IsRemoval
    · exact moved_of_isRemoval hremoval memory a
    · exact (overwritten h haddition hremoval memory a).moved

end DynArray

end Containers
