/-
Making room and giving it back.  What an operation does to the elements of an array
and to its capacity is said once for each operation, so that nothing else has to
look at how room is made.
-/
import Containers.DynArray.Change
import Containers.Proofs.Run

namespace Containers

theorem insertIdx_append_length {α : Type} (before after : List α) (v : α) :
    (before ++ after).insertIdx before.length v = before ++ v :: after := by
  induction before with
  | nil => rfl
  | cons first rest ih => exact congrArg (first :: ·) ih

namespace DynArray

variable {α : Type} [Element α]

/-! ### Taking elements in -/

/-- What becomes of an array that takes elements in until it holds `xs`.  The
capacity moves only up, only as far as the limit, and is large enough for `xs` if it
was large enough before. -/
structure Widened (a : DynArray α) (xs : List α) (b : DynArray α) : Prop where
  toList_eq : b.toList = xs
  policy_eq : b.policy = a.policy
  capacity_le : a.capacity ≤ b.capacity
  within_limit : b.capacity = a.capacity ∨ b.capacity ≤ Element.limit α
  fits : a.toList.length ≤ a.capacity → xs.length ≤ b.capacity

theorem widened_self (a : DynArray α) : Widened a a.toList a where
  toList_eq := rfl
  policy_eq := rfl
  capacity_le := Nat.le_refl _
  within_limit := Or.inl rfl
  fits h := h

theorem widened_withCapacity (a : DynArray α) {capacity : Nat} (hlt : a.capacity < capacity)
    (hlimit : capacity ≤ Element.limit α) : Widened a a.toList (a.withCapacity capacity) where
  toList_eq := rfl
  policy_eq := rfl
  capacity_le := Nat.le_of_lt hlt
  within_limit := Or.inr hlimit
  fits h := Nat.le_trans h (Nat.le_of_lt hlt)

/-- Room that was made for more elements can be filled. -/
theorem Widened.fill {a b c : DynArray α} {xs : List α} (h : Widened a a.toList b)
    (hpolicy : c.policy = b.policy) (hcapacity : c.capacity = b.capacity)
    (hlist : c.toList = xs) (hroom : a.toList.length ≤ a.capacity → xs.length ≤ b.capacity) :
    Widened a xs c where
  toList_eq := hlist
  policy_eq := hpolicy.trans h.policy_eq
  capacity_le := hcapacity ▸ h.capacity_le
  within_limit := hcapacity ▸ h.within_limit
  fits hfits := hcapacity ▸ hroom hfits

theorem reallocate_attempt (memory : Allocator) (a : DynArray α) {capacity : Nat}
    (hlt : a.capacity < capacity) :
    Attempt ArrayError.IsShortage a
      (fun b => Widened a a.toList b ∧ b.capacity = capacity) (reallocate memory capacity a) := by
  unfold reallocate
  split
  · exact .short trivial
  · rename_i hlimit
    split
    · exact .done ⟨widened_withCapacity a hlt (Nat.le_of_not_lt hlimit), rfl⟩
    · exact .short trivial

theorem grow_attempt (memory : Allocator) (a : DynArray α) :
    Attempt ArrayError.IsShortage a
      (fun b => Widened a a.toList b ∧ a.capacity < b.capacity) (grow memory a) := by
  unfold grow
  split
  · exact .short trivial
  · rename_i target htarget
    have hlt : a.capacity < target := Policy.lt_of_grown? htarget
    apply (reallocate_attempt memory a hlt).mono
    rintro b ⟨hwide, rfl⟩
    exact ⟨hwide, hlt⟩

theorem reserveOne_attempt (memory : Allocator) (a : DynArray α) :
    Attempt ArrayError.IsShortage a
      (fun b => Widened a a.toList b ∧
        (a.toList.length ≤ a.capacity → a.toList.length + 1 ≤ b.capacity))
      (reserveOne memory a) := by
  unfold reserveOne isFull Policy.shouldGrow
  rw [size_eq_length]
  split
  · apply (grow_attempt memory a).mono
    rintro b ⟨hwide, hlt⟩
    exact ⟨hwide, fun hfits => by omega⟩
  · rename_i hroom
    refine .done ⟨widened_self a, fun hfits => ?_⟩
    have hne : a.toList.length ≠ a.capacity := by simpa using hroom
    omega

theorem le_of_climb? {p : Policy} {required capacity target : Nat}
    (h : p.climb? required capacity = some target) : required ≤ target ∧ capacity ≤ target := by
  fun_induction Policy.climb? p required capacity with
  | case1 capacity hle =>
      rw [Option.some.injEq] at h
      omega
  | case2 capacity hle hnone => contradiction
  | case3 capacity hle next hnext ih =>
      have hlt := Policy.lt_of_grown? hnext
      have hle := ih h
      omega

theorem reserveFor_attempt (memory : Allocator) (additional : Nat) (a : DynArray α) :
    Attempt ArrayError.IsShortage a
      (fun b => Widened a a.toList b ∧ a.toList.length + additional ≤ b.capacity)
      (reserveFor memory additional a) := by
  unfold reserveFor
  rw [size_eq_length]
  split
  · exact .short trivial
  · rename_i required hsum
    obtain ⟨rfl, -⟩ := sizeSum?_eq_some_iff.mp hsum
    split
    · rename_i hroom
      exact .done ⟨widened_self a, hroom⟩
    · rename_i hroom
      split
      · exact .short trivial
      · rename_i target hclimb
        obtain ⟨henough, hup⟩ := le_of_climb? hclimb
        apply (reallocate_attempt memory a (by omega)).mono
        rintro b ⟨hwide, rfl⟩
        exact ⟨hwide, henough⟩

theorem reserve_attempt (memory : Allocator) (capacity : Nat) (a : DynArray α) :
    Attempt ArrayError.IsShortage a
      (fun b => Widened a a.toList b ∧ capacity ≤ b.capacity) (reserve memory capacity a) := by
  unfold reserve
  split
  · rename_i hlt
    apply (reallocate_attempt memory a hlt).mono
    rintro b ⟨hwide, hcapacity⟩
    exact ⟨hwide, Nat.le_of_eq hcapacity.symm⟩
  · rename_i hroom
    exact .done ⟨widened_self a, Nat.le_of_not_lt hroom⟩

theorem pushBack_attempt (memory : Allocator) (v : α) (a : DynArray α) :
    Attempt ArrayError.IsShortage a (Widened a (a.toList ++ [v])) (pushBack memory v a) := by
  have hreserve := reserveOne_attempt memory a
  unfold pushBack
  generalize reserveOne memory a = result at hreserve ⊢
  cases hreserve with
  | short hshort => exact .short hshort
  | @done b hdone =>
      obtain ⟨hwide, hroom⟩ := hdone
      refine .done (hwide.fill rfl rfl ?_ ?_)
      · change Storage.toList (Storage.push b.store v) = a.toList ++ [v]
        rw [Storage.toList_push, ← hwide.toList_eq]
        rfl
      · simpa using hroom

theorem insertAt_attempt (memory : Allocator) (i : Nat) (v : α) (a : DynArray α) :
    Attempt ArrayError.IsShortage a (Widened a (a.toList.insertIdx i v))
      (insertAt memory i v a) := by
  have hreserve := reserveOne_attempt memory a
  unfold insertAt
  generalize reserveOne memory a = result at hreserve ⊢
  cases hreserve with
  | short hshort => exact .short hshort
  | @done b hdone =>
      obtain ⟨hwide, hroom⟩ := hdone
      refine .done (hwide.fill rfl rfl ?_ ?_)
      · change Storage.toList (Storage.insert b.store i v) = a.toList.insertIdx i v
        rw [Storage.toList_insert, ← hwide.toList_eq]
        rfl
      · intro hfits
        exact Nat.le_trans List.length_insertIdx_le_succ (hroom hfits)

/-- An asserted index that is at most the size is no violation. -/
theorem insert_attempt (memory : Allocator) {i : Nat} (v : α) {a : DynArray α}
    (hi : i ≤ a.toList.length) :
    Attempt Failure.IsShortage a (Widened a (a.toList.insertIdx i v)) (insert memory i v a) := by
  unfold insert
  rw [size_eq_length, if_neg (Nat.not_lt.mpr hi)]
  exact (insertAt_attempt memory i v a).adaptExcept _ fun _ hshort => hshort

/-- Nothing is asked of the memory as long as there is room. -/
theorem insert_of_room (memory : Allocator) {i : Nat} (v : α) {a : DynArray α}
    (hi : i ≤ a.toList.length) (hroom : a.toList.length < a.capacity) :
    ∃ b, insert memory i v a = .ok () b := by
  have hnotFull : a.isFull = false := by
    unfold isFull Policy.shouldGrow
    rw [size_eq_length, beq_eq_false_iff_ne]
    exact Nat.ne_of_lt hroom
  refine ⟨{ a with store := Storage.insert a.store i v }, ?_⟩
  unfold insert insertAt reserveOne EStateM.adaptExcept
  rw [size_eq_length, if_neg (Nat.not_lt.mpr hi)]
  dsimp only
  rw [hnotFull]
  rfl

theorem extendBy_attempt (memory : Allocator) (more : Element.Store α) (a : DynArray α) :
    Attempt ArrayError.IsShortage a (Widened a (a.toList ++ Storage.toList more))
      (extendBy memory more a) := by
  have hreserve := reserveFor_attempt memory (Storage.size more) a
  unfold extendBy
  generalize reserveFor memory (Storage.size more) a = result at hreserve ⊢
  cases hreserve with
  | short hshort => exact .short hshort
  | @done b hdone =>
      obtain ⟨hwide, hroom⟩ := hdone
      refine .done (hwide.fill rfl rfl ?_ ?_)
      · change Storage.toList (Storage.append b.store more) = _
        rw [Storage.toList_append, ← hwide.toList_eq]
        rfl
      · intro _
        simpa using hroom

/-! ### New arrays -/

theorem built_eq_ok {action : EStateM ArrayError (DynArray α) Unit} {a b : DynArray α}
    (h : built action a = .ok b) : action a = .ok () b := by
  unfold built at h
  cases haction : action a with
  | ok reply c =>
      rw [haction] at h
      rw [Except.ok.inj h]
  | error error c =>
      rw [haction] at h
      contradiction

theorem one_le_minCapacity (p : Policy) : 1 ≤ p.minCapacity := by
  have hfaultless := p.faultless
  unfold Policy.fault? at hfaultless
  dsimp only at hfaultless
  repeat' split at hfaultless
  all_goals first | contradiction | omega

theorem ofPolicy_widened {memory : Allocator} {policy : Policy} {a : DynArray α}
    (h : ofPolicy memory policy = .ok a) :
    Widened (blank policy) [] a ∧ a.capacity = policy.minCapacity := by
  have hpos : (blank policy : DynArray α).capacity < policy.minCapacity :=
    one_le_minCapacity policy
  have hreallocate := reallocate_attempt memory (blank policy : DynArray α) hpos
  rw [toList_blank] at hreallocate
  exact hreallocate.of_ok (built_eq_ok h)

/-- Only a policy without a fault makes an array. -/
theorem exists_policy_of_ofParameters {memory : Allocator} {parameters : Policy.Parameters}
    {a : DynArray α} (h : ofParameters memory parameters = .ok a) :
    ∃ policy : Policy, policy.toParameters = parameters ∧ ofPolicy memory policy = .ok a := by
  unfold ofParameters Policy.ofParameters at h
  split at h
  · rename_i policy hpolicy
    refine ⟨policy, ?_, h⟩
    split at hpolicy
    · rw [← Except.ok.inj hpolicy]
    · contradiction
  · contradiction

theorem Widened.trans {a b c : DynArray α} {xs ys : List α} (hab : Widened a xs b)
    (hbc : Widened b ys c) : Widened a ys c where
  toList_eq := hbc.toList_eq
  policy_eq := hbc.policy_eq.trans hab.policy_eq
  capacity_le := Nat.le_trans hab.capacity_le hbc.capacity_le
  within_limit := by
    rcases hbc.within_limit with hsame | hlimit
    · rw [hsame]
      exact hab.within_limit
    · exact Or.inr hlimit
  fits hfits := hbc.fits (hab.toList_eq ▸ hab.fits hfits)

theorem pushBackAll_widened {memory : Allocator} {vs : List α} {a b : DynArray α}
    (h : pushBackAll memory vs a = .ok () b) : Widened a (a.toList ++ vs) b := by
  induction vs generalizing a with
  | nil =>
      obtain rfl : a = b := by simpa [pushBackAll] using h
      rw [List.append_nil]
      exact widened_self a
  | cons v vs ih =>
      have hpush := pushBack_attempt memory v a
      unfold pushBackAll at h
      generalize pushBack memory v a = result at hpush h
      cases hpush with
      | short hshort => contradiction
      | done hwide =>
          have hrest := ih h
          rw [hwide.toList_eq, List.append_assoc, List.singleton_append] at hrest
          exact hwide.trans hrest

theorem ofList_widened {memory : Allocator} {xs : List α} {a : DynArray α}
    (h : ofList memory xs = .ok a) :
    ∃ empty : DynArray α, new memory = .ok empty ∧ Widened empty xs a := by
  obtain ⟨empty, hnew, hbuilt⟩ := bind_eq_ok h
  have hempty : empty.toList = [] := (ofPolicy_widened hnew).1.toList_eq
  have hpushed := pushBackAll_widened (built_eq_ok hbuilt)
  rw [hempty, List.nil_append] at hpushed
  exact ⟨empty, hnew, hpushed⟩

/-- The steps by which a copy is made. -/
theorem clone_eq_ok {memory : Allocator} {a c : DynArray α} (h : clone memory a = .ok c) :
    ∃ empty roomy, ofPolicy memory a.policy = .ok empty ∧
      reserve memory a.capacity empty = .ok () roomy ∧
      c = { roomy with store := Storage.append roomy.store a.store } := by
  obtain ⟨empty, hempty, hcopied⟩ := bind_eq_ok h
  obtain ⟨roomy, hroomy, hfilled⟩ := bind_eq_ok hcopied
  exact ⟨empty, roomy, hempty, built_eq_ok hroomy, (Except.ok.inj hfilled).symm⟩

/-! ### Giving elements away -/

/-- What becomes of an array that gives elements away until it holds `xs`.  The
capacity moves only down, not below the minimum of the policy, and stays large
enough for `xs`. -/
structure Narrowed (a : DynArray α) (xs : List α) (b : DynArray α) : Prop where
  toList_eq : b.toList = xs
  policy_eq : b.policy = a.policy
  capacity_le : b.capacity ≤ a.capacity
  above_min : b.capacity = a.capacity ∨ a.policy.minCapacity ≤ b.capacity
  fits : xs.length ≤ a.capacity → xs.length ≤ b.capacity

theorem narrowed_self (a : DynArray α) : Narrowed a a.toList a where
  toList_eq := rfl
  policy_eq := rfl
  capacity_le := Nat.le_refl _
  above_min := Or.inl rfl
  fits h := h

/-- Only sizes that fit, and only what is less, are shrunk to. -/
theorem shrunk?_bounds {p : Policy} {capacity size target : Nat}
    (h : p.shrunk? capacity size = some target) :
    p.minCapacity ≤ target ∧ size ≤ target ∧ target < capacity := by
  unfold Policy.shrunk? at h
  dsimp only at h
  split at h
  · contradiction
  · split at h
    · rw [Option.some.injEq] at h
      omega
    · contradiction

theorem shrinkIfSparse_narrowed (a : DynArray α) :
    Narrowed a a.toList a.shrinkIfSparse := by
  unfold shrinkIfSparse
  split
  · split
    · exact narrowed_self a
    · rename_i target hshrunk
      obtain ⟨hmin, hsize, hlt⟩ := shrunk?_bounds hshrunk
      rw [size_eq_length] at hsize
      exact ⟨rfl, rfl, Nat.le_of_lt hlt, Or.inr hmin, fun _ => hsize⟩
  · exact narrowed_self a

/-- The search for a smaller capacity comes after the elements were given away. -/
theorem shrinkIfSparse_narrowed_store (a : DynArray α) (store : Element.Store α) :
    Narrowed a (Storage.toList store) (shrinkIfSparse { a with store := store }) :=
  { shrinkIfSparse_narrowed { a with store := store } with }

theorem removeAt_narrowed (i : Nat) (a : DynArray α) :
    Narrowed a (a.toList.eraseIdx i) (a.removeAt i) := by
  have hstore := shrinkIfSparse_narrowed_store a (Storage.erase a.store i)
  rw [Storage.toList_erase] at hstore
  exact hstore

theorem popBack?_fst (a : DynArray α) : (popBack? a).1 = a.toList.getLast? := by
  unfold popBack?
  rw [← back?_eq_getLast?]
  cases a.back? <;> rfl

theorem popBack?_narrowed (a : DynArray α) : Narrowed a a.toList.dropLast (popBack? a).2 := by
  unfold popBack?
  cases hback : a.back? with
  | some v =>
      have hstore := shrinkIfSparse_narrowed_store a (Storage.pop a.store)
      rw [Storage.toList_pop] at hstore
      exact hstore
  | none =>
      rw [back?_eq_getLast?, List.getLast?_eq_none_iff] at hback
      have hself := narrowed_self a
      rw [hback] at hself ⊢
      exact hself

theorem popFront?_fst (a : DynArray α) : (popFront? a).1 = a.toList.head? := by
  unfold popFront?
  rw [List.head?_eq_getElem?, ← get?_eq_getElem?]
  cases a.get? 0 <;> rfl

theorem popFront?_narrowed (a : DynArray α) : Narrowed a a.toList.tail (popFront? a).2 := by
  unfold popFront?
  cases hfront : a.get? 0 with
  | some v =>
      have hremoved := removeAt_narrowed 0 a
      rw [List.eraseIdx_zero] at hremoved
      exact hremoved
  | none =>
      rw [get?_eq_getElem?, ← List.head?_eq_getElem?, List.head?_eq_none_iff] at hfront
      have hself := narrowed_self a
      rw [hfront] at hself ⊢
      exact hself

/-- An array that has no element to give away stays as it is. -/
theorem popBack?_of_none {a : DynArray α} (h : (popBack? a).1 = none) : (popBack? a).2 = a := by
  unfold popBack? at h ⊢
  cases hback : a.back? with
  | some v => simp [hback] at h
  | none => rfl

theorem popFront?_of_none {a : DynArray α} (h : (popFront? a).1 = none) :
    (popFront? a).2 = a := by
  unfold popFront? at h ⊢
  cases hfront : a.get? 0 with
  | some v => simp [hfront] at h
  | none => rfl

end DynArray

end Containers
