/-
Priority queues under any predicate whatever.  It decides in which order elements come
out, and nothing else: the heap is never left by an index, no element is lost or made up,
and the numbers of the array below move as if nothing but its end were used.
-/
import Containers.DynArray.Command
import Containers.Proofs.Gauge
import Containers.Proofs.GreatestFirst
import Containers.Proofs.Lockstep
import Containers.Proofs.PolicyNumbers
import Containers.Proofs.SiftBounds

namespace Containers

/-! ### Capacities under the standard policy -/

namespace Gauge

/-- The elements fit, and the capacity is on the path of the standard policy: four times a
power of two. -/
structure OnPath (x : Gauge) : Prop where
  fits : x.size ≤ x.capacity
  on_path : ∃ k, x.capacity = 4 * 2 ^ k
  bounded : x.capacity ≤ maxSize

/-- The path ends at half of all sizes. -/
theorem OnPath.size_le {x : Gauge} (h : OnPath x) : x.size ≤ 2 ^ 63 := by
  obtain ⟨hfits, ⟨k, hk⟩, hmax⟩ := h
  have hk' : 4 * 2 ^ k ≤ maxSize := hk ▸ hmax
  have hless : k < 62 := by
    by_contra hmore
    have hpow : 2 ^ 62 ≤ 2 ^ k := Nat.pow_le_pow_right (by decide) (Nat.not_lt.mp hmore)
    simp only [maxSize] at hk'
    omega
  have hpow : 2 ^ k ≤ 2 ^ 61 := Nat.pow_le_pow_right (by decide) (Nat.le_of_lt_succ hless)
  omega

/-- The path is never left: every step up doubles, and every step down halves. -/
theorem OnPath.step {x y : Gauge} (hx : OnPath x) (h : Step .standard x y) : OnPath y := by
  obtain ⟨hfits, ⟨k, hk⟩, hmax⟩ := hx
  cases h with
  | still => exact ⟨hfits, ⟨k, hk⟩, hmax⟩
  | added hroom => exact ⟨Nat.lt_of_le_of_ne hfits hroom, ⟨k, hk⟩, hmax⟩
  | @grown capacity next count hnext =>
      obtain rfl : capacity = 4 * 2 ^ k := hk
      exact ⟨Policy.lt_of_grown? hnext, ⟨k + 1, Policy.standard_grown?_double hmax hnext⟩,
        Policy.grown?_le hnext⟩
  | removed _ => exact ⟨(Nat.le_succ _).trans hfits, ⟨k, hk⟩, hmax⟩
  | @shrunk size capacity next count hsparse hnext =>
      obtain rfl : capacity = 4 * 2 ^ k := hk
      have hsize : size ≤ maxSize := ((Nat.le_succ size).trans hfits).trans hmax
      have hhalf : size ≤ 2 * 2 ^ k := Policy.standard_sparse_double hmax hsize hsparse
      obtain ⟨htarget, hlt⟩ := Policy.shrunk?_eq_some_iff.mp hnext
      rw [Policy.standard_smallest_double hmax] at htarget
      refine ⟨(DynArray.shrunk?_bounds hnext).2.1, ?_, hlt.le.trans hmax⟩
      change ∃ j, next = 4 * 2 ^ j
      cases k with
      | zero =>
          simp only [pow_zero] at htarget hlt
          omega
      | succ j =>
          have hpos : 0 < 2 ^ j := Nat.two_pow_pos j
          refine ⟨j, ?_⟩
          rw [pow_succ] at htarget hhalf
          omega

end Gauge

namespace DynArray

variable {α : Type} [Element α]

/-- An array of the standard policy that has been filled and emptied at its end. -/
structure Doubling (a : DynArray α) : Prop where
  policy_eq : a.policy = .standard
  on_path : a.gauge.OnPath

theorem Doubling.moved {a b : DynArray α} (ha : a.Doubling) (h : Moved a b) : b.Doubling where
  policy_eq := h.policy_eq.trans ha.policy_eq
  on_path := ha.on_path.step (ha.policy_eq ▸ h.step)

theorem doubling_new {memory : Allocator} {a : DynArray α} (h : new memory = .ok a) :
    a.Doubling := by
  obtain ⟨hwide, hcapacity⟩ := ofPolicy_widened h
  have hmax : a.capacity ≤ maxSize := by
    simp only [hcapacity, maxSize]
    decide
  refine ⟨hwide.policy_eq, ?_, ⟨0, hcapacity⟩, hmax⟩
  change a.toList.length ≤ a.capacity
  rw [hwide.toList_eq]
  exact Nat.zero_le _

theorem Doubling.clear {a : DynArray α} (h : a.Doubling) : a.clear.Doubling := by
  refine ⟨h.policy_eq, ?_, h.on_path.on_path, h.on_path.bounded⟩
  change a.clear.toList.length ≤ a.capacity
  rw [toList_clear]
  exact Nat.zero_le _

/-! ### Arrays of the same numbers -/

/-- The policy and the numbers, which do not depend on the elements. -/
def numbers (a : DynArray α) : Policy × Gauge := (a.policy, a.gauge)

theorem numbers_rewrite (f : (xs : Array α) → { ys : Array α // ys.size = xs.size })
    (a : DynArray α) : (a.rewrite f).numbers = a.numbers :=
  Prod.ext (rewrite_overwritten f a).policy_eq (rewrite_overwritten f a).gauge_eq

theorem numbers_eq_iff {a b : DynArray α} : a.numbers = b.numbers ↔
    a.policy = b.policy ∧ a.toList.length = b.toList.length ∧ a.capacity = b.capacity ∧
      a.reallocations = b.reallocations := by
  simp [numbers, gauge]

/-- Whether there is room for one more element is decided by the numbers. -/
theorem reserveOne_numbers (memory : Allocator) {a b : DynArray α} (h : a.numbers = b.numbers) :
    (∃ a' b', reserveOne memory a = .ok () a' ∧ reserveOne memory b = .ok () b' ∧
        a'.numbers = b'.numbers) ∨
      ∃ error, reserveOne memory a = .error error a ∧ reserveOne memory b = .error error b := by
  obtain ⟨hpolicy, hlength, hcapacity, hcount⟩ := numbers_eq_iff.mp h
  have hmoved : ∀ c, (a.withCapacity c).numbers = (b.withCapacity c).numbers := by
    intro c
    rw [numbers_eq_iff]
    exact ⟨hpolicy, hlength, rfl, congrArg (· + 1) hcount⟩
  have hfull : a.isFull = b.isFull := by
    rw [isFull, isFull, hpolicy, hcapacity, size_eq_length, size_eq_length, hlength]
  simp only [reserveOne, grow, hfull, hpolicy, hcapacity]
  split
  · split
    · exact Or.inr ⟨_, rfl, rfl⟩
    · rename_i target htarget
      simp only [reallocate]
      split
      · exact Or.inr ⟨_, rfl, rfl⟩
      · split
        · exact Or.inl ⟨_, _, rfl, rfl, hmoved target⟩
        · exact Or.inr ⟨_, rfl, rfl⟩
  · exact Or.inl ⟨_, _, rfl, rfl, h⟩

theorem pushBack_numbers (memory : Allocator) (v w : α) {a b : DynArray α}
    (h : a.numbers = b.numbers) :
    (∃ a' b', pushBack memory v a = .ok () a' ∧ pushBack memory w b = .ok () b' ∧
        a'.numbers = b'.numbers) ∨
      ∃ error, pushBack memory v a = .error error a ∧ pushBack memory w b = .error error b := by
  rcases reserveOne_numbers memory h with ⟨a', b', ha, hb, hnumbers⟩ | ⟨error, ha, hb⟩
  · refine Or.inl ⟨{ a' with store := Storage.push a'.store v },
      { b' with store := Storage.push b'.store w }, ?_, ?_, ?_⟩
    · simp [pushBack, ha]
    · simp [pushBack, hb]
    · obtain ⟨hpolicy, hlength, hcapacity, hcount⟩ := numbers_eq_iff.mp hnumbers
      simp only [toList] at hlength
      simp [numbers_eq_iff, toList, hpolicy, hlength, hcapacity, hcount]
  · exact Or.inr ⟨error, by simp [pushBack, ha], by simp [pushBack, hb]⟩

/-- Operations on single elements that leave equally many elements move the numbers alike. -/
theorem Moved.numbers_eq {a b c d : DynArray α} (hac : Moved a c) (hbd : Moved b d)
    (h : a.numbers = b.numbers) (hleft : c.toList.length = d.toList.length) :
    c.numbers = d.numbers := by
  obtain ⟨hpolicy, hlength, hcapacity, hcount⟩ := numbers_eq_iff.mp h
  have hnext : c.capacity = d.capacity := hac.capacity_eq hbd hpolicy hlength hcapacity hleft
  rw [numbers_eq_iff, hac.policy_eq, hbd.policy_eq, hac.counted, hbd.counted]
  simp only [hpolicy, hleft, hnext, hcapacity, hcount, and_self]

/-- Whether there is an element to give away, and what becomes of the capacity, is decided
by the numbers. -/
theorem popBack?_numbers {a b : DynArray α} (h : a.numbers = b.numbers) :
    (popBack? a).1.isSome = (popBack? b).1.isSome ∧
      (popBack? a).2.numbers = (popBack? b).2.numbers := by
  have hlength : a.toList.length = b.toList.length := (numbers_eq_iff.mp h).2.1
  constructor
  · rw [Bool.eq_iff_iff, popBack?_fst, popBack?_fst, List.getLast?_isSome,
      List.getLast?_isSome, ← List.length_pos_iff, ← List.length_pos_iff, hlength]
  · apply (popBack?_moved a).numbers_eq (popBack?_moved b) h
    rw [(popBack?_narrowed a).toList_eq, (popBack?_narrowed b).toList_eq, List.length_dropLast,
      List.length_dropLast, hlength]

theorem clear_numbers {a b : DynArray α} (h : a.numbers = b.numbers) :
    a.clear.numbers = b.clear.numbers := by
  obtain ⟨hpolicy, -, hcapacity, hcount⟩ := numbers_eq_iff.mp h
  rw [numbers_eq_iff, toList_clear, toList_clear]
  exact ⟨hpolicy, rfl, hcapacity, hcount⟩

end DynArray

namespace PriorityQueue

variable {α : Type} [Element α]

/-! ### Heaps that stay on the path -/

theorem doubling_push (memory : Allocator) (v : α) {q : PriorityQueue α}
    (h : q.heap.Doubling) : (leftBy (push memory v q)).heap.Doubling := by
  obtain ⟨heap, less⟩ := q
  have hmoved := DynArray.pushBack_moved memory v heap
  unfold push
  dsimp only
  generalize DynArray.pushBack memory v heap = result at hmoved ⊢
  cases result with
  | ok reply grown =>
      exact (h.moved hmoved).moved (DynArray.rewrite_overwritten _ grown).moved
  | error error same => exact h.moved hmoved

theorem doubling_pop? {q : PriorityQueue α} (h : q.heap.Doubling) :
    (pop? q).2.heap.Doubling := by
  obtain ⟨heap, less⟩ := q
  have hswapped : (heap.rewrite Heap.swapEnds).Doubling :=
    DynArray.Doubling.moved h (DynArray.rewrite_overwritten _ heap).moved
  have hleft := hswapped.moved (DynArray.popBack?_moved _)
  unfold pop?
  dsimp only
  generalize DynArray.popBack? (heap.rewrite Heap.swapEnds) = result at hleft ⊢
  obtain ⟨v?, rest⟩ := result
  cases v? with
  | some v => exact hleft.moved (DynArray.rewrite_overwritten _ rest).moved
  | none => exact hleft

theorem doubling_new {memory : Allocator} {less : α → α → Bool} {q : PriorityQueue α}
    (h : new memory less = .ok q) : q.heap.Doubling := by
  unfold new at h
  split at h
  · rename_i heap hnew
    obtain rfl := Except.ok.inj h
    exact DynArray.doubling_new hnew
  · contradiction

theorem run_doubling (operations : List (Place × Allocator × Command α)) :
    (Workspace.vacant.runEach Command.effect operations).2.Holds fun q => q.heap.Doubling :=
  Workspace.holds_runEach fun operation _ => Command.keeps_of_single
    (fun _ _ _ hq => doubling_new hq) (fun _ v hq => doubling_push operation.2.1 v hq)
    (fun _ hq => doubling_pop? hq) fun _ hq => hq.clear

/-! ### Single operations -/

/-- What adding and taking away do whatever the predicate answers.  The elements rise and
sink as they do with every index looked up. -/
structure KeepsElements (q : PriorityQueue α) : Prop where
  push_attempt : ∀ (memory : Allocator) (v : α), Attempt Error.IsShortage q
    (fun r => r.less = q.less ∧ r.toList.Perm (v :: q.toList) ∧
      Heap.risen? q.less (q.heapArray.push v) (q.size + 1) q.size = some r.heapArray)
    (push memory v q)
  pop?_eq_top? : (pop? q).1 = q.top?
  pop?_eq_none_iff : (pop? q).1 = none ↔ q.toList = []
  pop?_empty : q.toList = [] → (pop? q).2.toList = []
  pop?_perm : ∀ t, (pop? q).1 = some t → q.toList.Perm (t :: (pop? q).2.toList)
  pop?_sunk : q.toList ≠ [] →
    Heap.sunk? q.less (Heap.swapEnds q.heapArray).val.pop q.size 0 = some (pop? q).2.heapArray
  pop?_less : (pop? q).2.less = q.less

theorem size_heapArray (q : PriorityQueue α) : q.heapArray.size = q.size := by
  rw [heapArray, List.size_toArray, size, DynArray.size_eq_length]
  rfl

theorem keepsElements_of_doubling {q : PriorityQueue α} (h : q.heap.Doubling) :
    KeepsElements q where
  push_attempt memory v := by
    have hadded := push_attempt memory v q
    have hperm := push_perm_attempt memory v q
    generalize push memory v q = result at hadded hperm ⊢
    cases hperm with
    | short hshort => exact .short hshort
    | done hr =>
        cases hadded with
        | done hheap =>
            have hsize : (q.heapArray.push v).size = q.size + 1 := by
              rw [Array.size_push, size_heapArray]
            have hlast : (q.heapArray.push v).size - 1 = q.size := by omega
            refine .done ⟨hheap.1, hr.1, ?_⟩
            rw [← hsize, ← hlast, hheap.2]
            exact Heap.risen?_last q.less (by omega)
  pop?_eq_top? := by rw [pop?_fst, top?_eq_head?]
  pop?_eq_none_iff := by rw [pop?_fst, List.head?_eq_none_iff]
  pop?_empty hnil := by
    have hheap := pop?_heapArray q
    rw [heapArray, heapArray, hnil] at hheap
    exact congrArg Array.toList hheap
  pop?_perm t ht := pop?_perm ((pop?_fst q).symm.trans ht)
  pop?_sunk hne := by
    have hlength : 0 < q.size := by
      rw [size, DynArray.size_eq_length]
      exact List.length_pos_iff.mpr hne
    have hsize : (Heap.swapEnds q.heapArray).val.pop.size + 1 = q.size := by
      rw [Array.size_pop, (Heap.swapEnds q.heapArray).property, size_heapArray]
      omega
    have hbound : q.size ≤ 2 ^ 63 := by
      rw [size, DynArray.size_eq_length]
      exact h.on_path.size_le
    rw [← hsize, Heap.sunk?_first q.less (by omega), pop?_heapArray]
    rfl
  pop?_less := pop?_less q

/-! ### Runs beside an array -/

/-- Operations on a queue and on an array that add, take away or show an element each; it
need not be the same one. -/
inductive Command.Mirrors : Command α → DynArray.Command α → Prop
  | new (less : α → α → Bool) : Mirrors (.new less) .new
  | push (v w : α) : Mirrors (.push v) (.pushBack w)
  | pop? : Mirrors .pop? .popBack?
  | top? : Mirrors .top? .back?
  | clear : Mirrors .clear .clear
  | exchange : Mirrors .exchange .exchange

theorem length_held_optional {β : Type} {v? w? : Option β} (h : v?.isSome = w?.isSome) :
    (Reply.optional v?).held.length = (Reply.optional w?).held.length := by
  cases v? <;> cases w? <;> simp_all [Reply.held]

theorem push_numbers (memory : Allocator) (v w : α) {q : PriorityQueue α} {a : DynArray α}
    (h : q.heap.numbers = a.numbers) :
    (∃ r b, push memory v q = .ok () r ∧ DynArray.pushBack memory w a = .ok () b ∧
        r.heap.numbers = b.numbers) ∨
      ∃ error, push memory v q = .error (.array error) q ∧
        DynArray.pushBack memory w a = .error error a := by
  obtain ⟨heap, less⟩ := q
  rcases DynArray.pushBack_numbers memory v w h with ⟨grown, b, hpush, hpush', hnumbers⟩ |
    ⟨error, hpush, hpush'⟩
  · refine Or.inl ⟨⟨grown.rewrite (Heap.raiseLast less), less⟩, b, ?_, hpush', ?_⟩
    · simp [push, hpush]
    · exact (DynArray.numbers_rewrite _ grown).trans hnumbers
  · exact Or.inr ⟨error, by simp [push, hpush], hpush'⟩

theorem pop?_numbers {q : PriorityQueue α} {a : DynArray α} (h : q.heap.numbers = a.numbers) :
    (pop? q).1.isSome = (DynArray.popBack? a).1.isSome ∧
      (pop? q).2.heap.numbers = (DynArray.popBack? a).2.numbers := by
  obtain ⟨heap, less⟩ := q
  have hpop := DynArray.popBack?_numbers ((DynArray.numbers_rewrite Heap.swapEnds heap).trans h)
  unfold pop?
  dsimp only
  generalize DynArray.popBack? (heap.rewrite Heap.swapEnds) = result at hpop ⊢
  obtain ⟨v?, rest⟩ := result
  cases v? with
  | some v => exact ⟨hpop.1, (DynArray.numbers_rewrite _ rest).trans hpop.2⟩
  | none => exact hpop

theorem Command.Mirrors.inStep (memory : Allocator) {command : Command α}
    {command' : DynArray.Command α} (h : command.Mirrors command') :
    (command.effect memory).InStep (fun reply reply' => reply.held.length = reply'.held.length)
      (fun q a => q.heap.numbers = a.numbers) (fun _ => False) (command'.effect memory) := by
  cases h with
  | new less =>
      simp only [effect, DynArray.Command.effect, PriorityQueue.new]
      cases (DynArray.new memory : Except ArrayError (DynArray α)) with
      | ok a =>
          refine Effect.inStep_make rfl ?_ ?_
          · rintro q hq
            exact ⟨a, rfl, by rw [← Except.ok.inj hq]⟩
          · intro error herror
            contradiction
      | error error =>
          refine Effect.inStep_make rfl ?_ ?_
          · rintro q hq
            contradiction
          · intro error' herror
            exact Or.inl (congrArg Except.error (Except.error.inj herror))
  | push v w =>
      apply Effect.inStep_work
      intro q a hqa
      dsimp only [EStateM.adaptExcept, Reply.silently]
      rcases push_numbers memory v w hqa with ⟨r, b, hpush, hpush', hrb⟩ | ⟨error, hpush, hpush'⟩
      · rw [map_of_ok hpush, map_of_ok hpush']
        exact Or.inl ⟨.accepted rfl, hrb⟩
      · rw [map_of_error hpush, map_of_error hpush']
        exact Or.inl ⟨.refused _, hqa⟩
  | pop? =>
      apply Effect.inStep_work
      intro q a hqa
      obtain ⟨hthere, hleft⟩ := pop?_numbers hqa
      exact Or.inl ⟨.returned (length_held_optional hthere), hleft⟩
  | top? =>
      apply Effect.inStep_work
      intro q a hqa
      have hlength : q.toList.length = a.toList.length := (DynArray.numbers_eq_iff.mp hqa).2.1
      have hthere : q.top?.isSome = a.back?.isSome := by
        rw [Bool.eq_iff_iff, top?_eq_head?, DynArray.back?_eq_getLast?, List.isSome_head?,
          List.getLast?_isSome, ← List.length_pos_iff, ← List.length_pos_iff, hlength]
      exact Or.inl ⟨.returned (length_held_optional hthere), hqa⟩
  | clear =>
      apply Effect.inStep_work
      intro q a hqa
      exact Or.inl ⟨.returned rfl, DynArray.clear_numbers hqa⟩
  | exchange =>
      apply Effect.inStep_joint
      intro q r a b hqa hrb
      exact Or.inl ⟨.returned rfl, hrb, hqa⟩

/-- A queue and an array of the same size, with the same capacity at the same number of
reallocations. -/
structure SameNumbers (q : PriorityQueue α) (a : DynArray α) : Prop where
  size_eq : q.size = a.size
  capacity_eq : q.capacity = a.capacity
  reallocations_eq : q.heap.reallocations = a.reallocations

theorem sameNumbers_of_eq {q : PriorityQueue α} {a : DynArray α}
    (h : q.heap.numbers = a.numbers) : SameNumbers q a := by
  obtain ⟨-, hlength, hcapacity, hcount⟩ := DynArray.numbers_eq_iff.mp h
  refine ⟨?_, hcapacity, hcount⟩
  rw [size, DynArray.size_eq_length, DynArray.size_eq_length, hlength]

/-- Operations in the same places with the same memory, of which one does below what the
other does above. -/
def Beside (operation : Place × Allocator × Command α)
    (operation' : Place × Allocator × DynArray.Command α) : Prop :=
  operation.1 = operation'.1 ∧ operation.2.1 = operation'.2.1 ∧
    operation.2.2.Mirrors operation'.2.2

/-- A run on queues beside one on arrays that adds and takes away in the same places. -/
theorem run_mirrored {operations : List (Place × Allocator × Command α)}
    {operations' : List (Place × Allocator × DynArray.Command α)}
    (h : List.Forall₂ Beside operations operations') :
    List.Forall₂ (Outcome.Alike fun reply reply' => reply.held.length = reply'.held.length)
        (Workspace.vacant.runEach Command.effect operations).1
        (Workspace.vacant.runEach DynArray.Command.effect operations').1 ∧
      Workspace.Alike SameNumbers (Workspace.vacant.runEach Command.effect operations).2
        (Workspace.vacant.runEach DynArray.Command.effect operations').2 := by
  have hsteps : List.Forall₂ (fun operation operation' => operation.1 = operation'.1 ∧
      operation.2.InStep (fun reply reply' => reply.held.length = reply'.held.length)
        (fun q a => q.heap.numbers = a.numbers) (fun _ => False) operation'.2)
      (operations.map fun operation =>
        (operation.1, Command.effect operation.2.1 operation.2.2))
      (operations'.map fun operation =>
        (operation.1, DynArray.Command.effect operation.2.1 operation.2.2)) := by
    rw [List.forall₂_map_left_iff, List.forall₂_map_right_iff]
    refine h.imp fun operation operation' hbeside => ?_
    obtain ⟨hplace, hmemory, hmirrors⟩ := hbeside
    exact ⟨hplace, hmemory ▸ hmirrors.inStep operation.2.1⟩
  obtain ⟨houtcomes, hleft⟩ :=
    Workspace.run_inStep hsteps Workspace.alike_vacant fun _ _ hfalse => hfalse
  exact ⟨houtcomes, hleft.imp fun _ _ hnumbers => sameNumbers_of_eq hnumbers⟩

/-- Whatever the predicates answer, every queue that a run leaves behind takes in and gives
away single elements and loses none, with rising and sinking that stay within the heap and
come to an end.  A run beside one on arrays that adds and takes away in the same places has
outcomes of the same kinds and leaves the same sizes and capacities, whatever the elements
are.  Each operation finds memory of its own, and either run may end after any step. -/
theorem run_under_any_predicate :
    (∀ operations : List (Place × Allocator × Command α),
      (Workspace.vacant.runEach Command.effect operations).2.Holds KeepsElements) ∧
    ∀ (operations : List (Place × Allocator × Command α))
      (operations' : List (Place × Allocator × DynArray.Command α)),
      List.Forall₂ Beside operations operations' →
      List.Forall₂ (Outcome.Alike fun reply reply' => reply.held.length = reply'.held.length)
          (Workspace.vacant.runEach Command.effect operations).1
          (Workspace.vacant.runEach DynArray.Command.effect operations').1 ∧
        Workspace.Alike SameNumbers (Workspace.vacant.runEach Command.effect operations).2
          (Workspace.vacant.runEach DynArray.Command.effect operations').2 := by
  constructor
  · intro operations place q hq
    exact keepsElements_of_doubling (run_doubling operations place q hq)
  · intro operations operations' h
    exact run_mirrored h

namespace AnyPredicateWitness

/-- Each of three kinds is less than the next one, all around. -/
def beats (a b : UInt8) : Bool := (a.toNat + 1) % 3 == b.toNat % 3

/-- No block is granted that takes more than four bytes. -/
def scarce : Allocator := .upTo 4

/-- A queue grows to a second block and shrinks back. -/
def operations : List (Place × Allocator × Command UInt8) :=
  [(.second, .addressSpace, .new beats), (.second, scarce, .push 3), (.second, scarce, .push 4),
    (.second, scarce, .push 5), (.second, scarce, .push 6), (.second, .addressSpace, .push 7),
    (.first, scarce, .new fun _ _ => true), (.second, scarce, .pop?),
    (.first, scarce, .exchange), (.first, scarce, .pop?), (.first, scarce, .pop?)]

/-- Noughts in the same places. -/
def noughts : List (Place × Allocator × DynArray.Command UInt8) :=
  [(.second, .addressSpace, .new), (.second, scarce, .pushBack 0), (.second, scarce, .pushBack 0),
    (.second, scarce, .pushBack 0), (.second, scarce, .pushBack 0),
    (.second, .addressSpace, .pushBack 0), (.first, scarce, .new), (.second, scarce, .popBack?),
    (.first, scarce, .exchange), (.first, scarce, .popBack?), (.first, scarce, .popBack?)]

theorem operations_beside : List.Forall₂ Beside operations noughts := by
  repeat' constructor

def left : Option (PriorityQueue UInt8) :=
  (Workspace.vacant.runEach Command.effect operations).2.first

/-- What is left of the noughts. -/
def beside : Option (DynArray UInt8) :=
  (Workspace.vacant.runEach DynArray.Command.effect noughts).2.first

theorem run_under_any_predicate_all_around :
    ∃ q ∈ left, q.toList = [6, 3] ∧ q.capacity = 4 ∧ ∃ a ∈ beside, SameNumbers q a := by
  have hsome : left.isSome = true := by decide +kernel
  obtain ⟨q, hq⟩ := Option.isSome_iff_exists.mp hsome
  have hleft : left.map (fun q => (q.toList, q.capacity)) = some ([6, 3], 4) := by
    decide +kernel
  rw [hq, Option.map_some, Option.some_inj, Prod.mk.injEq] at hleft
  have hbeside : Option.Rel SameNumbers left beside :=
    (run_under_any_predicate.2 operations noughts operations_beside).2.first
  rw [hq] at hbeside
  generalize beside = noughts at hbeside ⊢
  cases hbeside with
  | @some _ a hnumbers => exact ⟨q, hq, hleft.1, hleft.2, a, rfl, hnumbers⟩

end AnyPredicateWitness

end PriorityQueue

end Containers
