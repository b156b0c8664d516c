/-
The path of capacities that a policy leads along, one step after the other, and where a
reservation of many elements leaves it.  Every step leads up, even where a product with the
growth factor is rounded back to what it was before, so the search for the first capacity
with room stops; it asks for that capacity alone, or the path ends before.
-/
import Containers.Proofs.BulkAppend

namespace Containers

/-! ### Steps -/

namespace Policy

variable {p : Policy} {capacity start required : Nat}

/-- Every step is a step up, and leads no lower than the minimum. -/
theorem grown?_bounds {target : Nat} (h : p.grown? capacity = some target) :
    capacity < target ∧ p.minCapacity ≤ target := by
  refine ⟨lt_of_grown? h, ?_⟩
  unfold grown? at h
  dsimp only at h
  split at h
  · split at h
    · rw [← Option.some.inj h]
      exact Nat.le_max_right _ _
    · contradiction
  · contradiction

/-- The capacity after this many steps from `start`, unless the path ends before. -/
def path (p : Policy) (start : Nat) : Nat → Option Nat
  | 0 => some start
  | n + 1 => (p.path start n).bind p.grown?

/-- The path from the second capacity on. -/
theorem path_succ (p : Policy) (start n : Nat) :
    p.path start (n + 1) = (p.grown? start).bind fun next => p.path next n := by
  induction n with
  | zero => simp [path]
  | succ n ih => rw [path, ih, Option.bind_assoc]; rfl

theorem path_of_grown? {next : Nat} (hnext : p.grown? start = some next) (n : Nat) :
    p.path start (n + 1) = p.path next n := by
  rw [path_succ, hnext, Option.bind_some]

theorem path_of_grown?_none (hnone : p.grown? start = none) (n : Nat) :
    p.path start (n + 1) = none := by
  rw [path_succ, hnone, Option.bind_none]

/-- With every step there is room for one more element at least. -/
theorem add_le_of_path {n : Nat} (h : p.path start n = some capacity) :
    start + n ≤ capacity := by
  induction n generalizing capacity with
  | zero => exact Nat.le_of_eq (Option.some.inj h)
  | succ n ih =>
      rw [path, Option.bind_eq_some_iff] at h
      obtain ⟨before, hbefore, hstep⟩ := h
      have hup : before < capacity := lt_of_grown? hstep
      have hle := ih hbefore
      omega

/-! ### The first capacity with room -/

/-- After `n` steps the path comes to `target`, where there is room for `required` elements,
and not before. -/
structure FirstRoom (p : Policy) (start required n target : Nat) : Prop where
  path_eq : p.path start n = some target
  enough : required ≤ target
  earlier : ∀ m < n, ∀ c, p.path start m = some c → c < required

/-- The path ends before the `n`-th step, and nowhere on it there is room for `required`
elements. -/
structure EndsShort (p : Policy) (start required n : Nat) : Prop where
  path_eq : p.path start n = none
  short : ∀ m c, p.path start m = some c → c < required

theorem FirstRoom.unique {n n' target target' : Nat} (h : FirstRoom p start required n target)
    (h' : FirstRoom p start required n' target') : n = n' ∧ target = target' := by
  have hnot : ∀ {m m' t t' : Nat}, FirstRoom p start required m t →
      FirstRoom p start required m' t' → ¬ m < m' := fun hm hm' hlt =>
    absurd (hm'.earlier _ hlt _ hm.path_eq) (Nat.not_lt.mpr hm.enough)
  obtain rfl : n = n' := Nat.le_antisymm (Nat.not_lt.mp (hnot h' h)) (Nat.not_lt.mp (hnot h h'))
  exact ⟨rfl, Option.some.inj (h.path_eq.symm.trans h'.path_eq)⟩

/-- Where there is room somewhere on the path, it does not end short. -/
theorem FirstRoom.not_endsShort {n n' target : Nat} (h : FirstRoom p start required n target) :
    ¬ EndsShort p start required n' := fun hends =>
  absurd (hends.short n target h.path_eq) (Nat.not_lt.mpr h.enough)

theorem firstRoom_start (h : required ≤ start) : FirstRoom p start required 0 start :=
  ⟨rfl, h, fun _ hlt => absurd hlt (Nat.not_lt_zero _)⟩

theorem FirstRoom.step {next n target : Nat} (hnext : p.grown? start = some next)
    (hlt : start < required) (h : FirstRoom p next required n target) :
    FirstRoom p start required (n + 1) target := by
  have hpath := path_of_grown? hnext
  refine ⟨(hpath n).trans h.path_eq, h.enough, fun m hm c hc => ?_⟩
  cases m with
  | zero => exact Option.some.inj hc ▸ hlt
  | succ m => exact h.earlier m (Nat.lt_of_succ_lt_succ hm) c (hpath m ▸ hc)

theorem endsShort_start (hnone : p.grown? start = none) (hlt : start < required) :
    EndsShort p start required 1 := by
  have hpath := path_of_grown?_none hnone
  refine ⟨hpath 0, fun m c hc => ?_⟩
  cases m with
  | zero => exact Option.some.inj hc ▸ hlt
  | succ m => exact nomatch (hpath m).symm.trans hc

theorem EndsShort.step {next n : Nat} (hnext : p.grown? start = some next)
    (hlt : start < required) (h : EndsShort p next required n) :
    EndsShort p start required (n + 1) := by
  have hpath := path_of_grown? hnext
  refine ⟨(hpath n).trans h.path_eq, fun m c hc => ?_⟩
  cases m with
  | zero => exact Option.some.inj hc ▸ hlt
  | succ m => exact h.short m c (hpath m ▸ hc)

/-- How the search along the path ends, after no more steps than there are elements to make
room for. -/
inductive Search (p : Policy) (start required : Nat) : Option Nat → Prop
  | found {n target : Nat} (hfirst : FirstRoom p start required n target)
      (hsoon : n ≤ required - start) : Search p start required (some target)
  | ended {n : Nat} (hends : EndsShort p start required n) (hsoon : n ≤ required - start) :
      Search p start required none

/-- The induction is on the rounds of the search; each of them leaves less to climb. -/
theorem climb?_search (p : Policy) (required start : Nat) :
    Search p start required (p.climb? required start) := by
  fun_induction Policy.climb? p required start with
  | case1 start hle => exact .found (firstRoom_start hle) (Nat.zero_le _)
  | case2 start hnot hnone =>
      rw [Nat.not_le] at hnot
      exact .ended (endsShort_start hnone hnot) (by omega)
  | case3 start hnot next hnext ih =>
      rw [Nat.not_le] at hnot
      have hup : start < next := lt_of_grown? hnext
      generalize p.climb? required next = result at ih
      cases ih with
      | found hfirst hsoon => exact .found (hfirst.step hnext hnot) (by omega)
      | ended hends hsoon => exact .ended (hends.step hnext hnot) (by omega)

theorem climb?_eq_some_iff {target : Nat} :
    p.climb? required start = some target ↔ ∃ n, FirstRoom p start required n target := by
  have hsearch := climb?_search p required start
  generalize p.climb? required start = result at hsearch
  cases hsearch with
  | @found n target' hfirst _ =>
      constructor
      · rintro ⟨⟩
        exact ⟨n, hfirst⟩
      · rintro ⟨n', hfirst'⟩
        rw [(hfirst.unique hfirst').2]
  | ended hends _ =>
      refine ⟨nofun, ?_⟩
      rintro ⟨n', hfirst'⟩
      exact absurd hends hfirst'.not_endsShort

theorem climb?_eq_none_iff :
    p.climb? required start = none ↔ ∃ n, EndsShort p start required n := by
  have hsearch := climb?_search p required start
  generalize p.climb? required start = result at hsearch
  cases hsearch with
  | found hfirst _ =>
      refine ⟨nofun, ?_⟩
      rintro ⟨n', hends⟩
      exact absurd hends hfirst.not_endsShort
  | @ended n hends _ => exact ⟨fun _ => ⟨n, hends⟩, fun _ => rfl⟩

end Policy

/-! ### Reservations -/

namespace DynArray

variable {α : Type} [Element α] {a : DynArray α} {additional : Nat}

theorem reallocate_eq_overflow {memory : Allocator} {target requested : Nat} {b : DynArray α}
    (h : reallocate memory target a = .error (.overflow requested) b) :
    requested = target ∧ Element.limit α < target := by
  unfold reallocate at h
  split at h
  · rename_i hlimit
    exact ⟨(ArrayError.overflow.inj (EStateM.Result.error.inj h).1).symm, hlimit⟩
  · split at h
    · contradiction
    · exact nomatch (EStateM.Result.error.inj h).1

/-- Where the array is not large enough, the first capacity with room is asked for. -/
theorem reserveFor_of_firstRoom (memory : Allocator) {n target : Nat}
    (hsum : a.size + additional ≤ maxSize)
    (h : a.policy.FirstRoom a.capacity (a.size + additional) n target) :
    reserveFor memory additional a =
      if n = 0 then .ok () a else reallocate memory target a := by
  rw [reserveFor, sizeSum?_eq_some_iff.mpr ⟨rfl, hsum⟩]
  dsimp only
  cases n with
  | zero =>
      obtain rfl : a.capacity = target := Option.some.inj h.path_eq
      rw [if_pos h.enough, if_pos rfl]
  | succ n =>
      have hlt : a.capacity < a.size + additional := h.earlier 0 (Nat.zero_lt_succ n) _ rfl
      rw [if_neg (Nat.not_le.mpr hlt), if_neg (Nat.succ_ne_zero n),
        Policy.climb?_eq_some_iff.mpr ⟨n + 1, h⟩]

theorem reserveFor_of_endsShort (memory : Allocator) {n : Nat}
    (hsum : a.size + additional ≤ maxSize)
    (h : a.policy.EndsShort a.capacity (a.size + additional) n) :
    reserveFor memory additional a = .error (.overflow (a.size + additional)) a := by
  have hlt : a.capacity < a.size + additional := h.short 0 _ rfl
  rw [reserveFor, sizeSum?_eq_some_iff.mpr ⟨rfl, hsum⟩]
  dsimp only
  rw [if_neg (Nat.not_le.mpr hlt), Policy.climb?_eq_none_iff.mpr ⟨n, h⟩]

/-- One reallocation at most, to the first capacity with room. -/
theorem reserveFor_eq_ok {memory : Allocator} {n target : Nat} {b : DynArray α}
    (hsum : a.size + additional ≤ maxSize)
    (hfirst : a.policy.FirstRoom a.capacity (a.size + additional) n target)
    (h : reserveFor memory additional a = .ok () b) :
    b.capacity = target ∧ b.reallocations = a.reallocations + if n = 0 then 0 else 1 := by
  rw [reserveFor_of_firstRoom memory hsum hfirst] at h
  cases n with
  | zero =>
      obtain rfl : a = b := (EStateM.Result.ok.inj h).2
      exact ⟨Option.some.inj hfirst.path_eq, rfl⟩
  | succ n =>
      rw [if_neg (Nat.succ_ne_zero n)] at h
      rw [reallocate_eq_ok h]
      exact ⟨rfl, rfl⟩

/-- Why the number of elements itself is reported. -/
theorem reserveFor_eq_overflow {memory : Allocator} {b : DynArray α}
    (hsum : a.size + additional ≤ maxSize)
    (h : reserveFor memory additional a = .error (.overflow (a.size + additional)) b) :
    (∃ n, a.policy.EndsShort a.capacity (a.size + additional) n) ∨
      ∃ n, a.policy.FirstRoom a.capacity (a.size + additional) n (a.size + additional) ∧
        Element.limit α < a.size + additional := by
  have hsearch := a.policy.climb?_search (a.size + additional) a.capacity
  generalize a.policy.climb? (a.size + additional) a.capacity = result at hsearch
  cases hsearch with
  | @found n target hfirst _ =>
      rw [reserveFor_of_firstRoom memory hsum hfirst] at h
      split at h
      · contradiction
      · obtain ⟨heq, hlimit⟩ := reallocate_eq_overflow h
        rw [← heq] at hfirst hlimit
        exact .inr ⟨n, hfirst, hlimit⟩
  | ended hends _ => exact .inl ⟨_, hends⟩

/-- Every step of growth is a step up and leads no lower than the minimum, whatever the
policy, and the path climbs with each of them.  So room for more elements is searched for in
no more rounds than there are elements to make room for, from whatever array.  The search
comes to the first capacity on the path with room for all of them exactly where there is one,
and this capacity alone is asked for, at once, or nothing if there is room already; it comes
to nothing exactly where the path ends short, and then the number of elements is reported as
an overflow.  Otherwise that number is reported only where it is itself the capacity that is
asked for and no block can hold it. -/
theorem reservation_stops_first_on_path :
    (∀ (p : Policy) (c t : Nat), p.grown? c = some t → c < t ∧ p.minCapacity ≤ t) ∧
    (∀ (p : Policy) (start n c : Nat), p.path start n = some c → start + n ≤ c) ∧
    ∀ (memory : Allocator) (a : DynArray α) (additional : Nat),
      a.size + additional ≤ maxSize →
      let required := a.size + additional
      a.policy.Search a.capacity required (a.policy.climb? required a.capacity) ∧
      (∀ target, a.policy.climb? required a.capacity = some target ↔
        ∃ n, a.policy.FirstRoom a.capacity required n target) ∧
      (a.policy.climb? required a.capacity = none ↔
        ∃ n, a.policy.EndsShort a.capacity required n) ∧
      (∀ n target, a.policy.FirstRoom a.capacity required n target →
        reserveFor memory additional a =
            (if n = 0 then .ok () a else reallocate memory target a) ∧
          ∀ b, reserveFor memory additional a = .ok () b → b.capacity = target ∧
            b.reallocations = a.reallocations + if n = 0 then 0 else 1) ∧
      (∀ n, a.policy.EndsShort a.capacity required n →
        reserveFor memory additional a = .error (.overflow required) a) ∧
      ∀ b, reserveFor memory additional a = .error (.overflow required) b →
        (∃ n, a.policy.EndsShort a.capacity required n) ∨
          ∃ n, a.policy.FirstRoom a.capacity required n required ∧
            Element.limit α < required := by
  refine ⟨fun p c t => Policy.grown?_bounds, fun p start n c => Policy.add_le_of_path,
    fun memory a additional hsum => ?_⟩
  refine ⟨a.policy.climb?_search _ _, fun target => Policy.climb?_eq_some_iff,
    Policy.climb?_eq_none_iff, fun n target hfirst => ?_, fun n hends => ?_, fun b hb => ?_⟩
  · exact ⟨reserveFor_of_firstRoom memory hsum hfirst, fun b => reserveFor_eq_ok hsum hfirst⟩
  · exact reserveFor_of_endsShort memory hsum hends
  · exact reserveFor_eq_overflow hsum hb

namespace GrowthPathWitness

/-- The least growth factor that is more than one. -/
def barely : Policy.Parameters := ⟨⟨0x3ff0000000000001⟩, ⟨0x3fd0000000000000⟩, 4⟩

def operations : List (Place × Allocator × Command UInt8) :=
  [(.first, .addressSpace, .ofParameters barely), (.first, .addressSpace, .reserve 6),
    (.first, .addressSpace, .pushBack 1)]

def left : Option (DynArray UInt8) :=
  (Workspace.vacant.runEach Command.effect operations).2.get .first

/-- Slow growth gets there too, by one capacity after the other, in one reallocation. -/
theorem reservation_stops_first_on_path_slowly :
    ∃ a ∈ left, a.capacity = 6 ∧ a.reallocations = 2 ∧
      (∃ n, a.policy.FirstRoom a.capacity (a.size + 9) n 10) ∧
      ∃ b, reserveFor .addressSpace 9 a = .ok () b ∧ b.capacity = 10 ∧ b.reallocations = 3 := by
  have hsome : left.isSome = true := by decide +kernel
  obtain ⟨a, ha⟩ := Option.isSome_iff_exists.mp hsome
  have hnumbers : left.map (fun a => (a.size, a.capacity, a.reallocations)) = some (1, 6, 2) := by
    decide +kernel
  have hclimb : left.map (fun a => a.policy.climb? (a.size + 9) a.capacity) =
      some (some 10) := by decide +kernel
  rw [ha, Option.map_some, Option.some_inj] at hnumbers hclimb
  obtain ⟨hsize, hrest⟩ := Prod.mk.inj hnumbers
  obtain ⟨hcapacity, hreallocations⟩ := Prod.mk.inj hrest
  obtain ⟨-, -, hreserve⟩ := @reservation_stops_first_on_path UInt8 _
  obtain ⟨-, hfound, -, hstops, -⟩ := hreserve .addressSpace a 9 (by rw [hsize]; decide)
  obtain ⟨n, hfirst⟩ := (hfound 10).mp hclimb
  obtain ⟨heq, hleft⟩ := hstops n 10 hfirst
  have hn : n ≠ 0 := by
    rintro rfl
    exact absurd (hcapacity.symm.trans (Option.some.inj hfirst.path_eq)) (by decide)
  rw [if_neg hn] at heq hleft
  have hblock : HasBlock .addressSpace UInt8 10 := ⟨by decide, by decide⟩
  rw [reallocate_of_hasBlock a hblock] at heq
  obtain ⟨hroom, hcount⟩ := hleft _ heq
  exact ⟨a, ha, hcapacity, hreallocations, ⟨n, hfirst⟩, _, heq, hroom,
    hcount.trans (congrArg (· + 1) hreallocations)⟩

end GrowthPathWitness

end DynArray

end Containers
