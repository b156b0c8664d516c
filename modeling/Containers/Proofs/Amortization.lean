/-
Under the standard policy the capacity is four times a power of two, and more than a
quarter of it is in use unless it is four.  Whatever changes the capacity leaves it half
in use, so that a quarter of it has to be filled or emptied before it changes again.
-/
import Containers.Proofs.Gauge
import Containers.Proofs.PolicyNumbers

namespace Containers

namespace Gauge

/-! ### Numbers under the standard policy -/

/-- What single operations keep up from an empty array on. -/
structure Regular (x : Gauge) : Prop where
  fits : x.size ≤ x.capacity
  power : ∃ k, x.capacity = 4 * 2 ^ k
  in_use : x.capacity = 4 ∨ x.capacity < 4 * x.size

/-- What a change of the capacity leaves: half is in use, and one more after growing. -/
def Centered (x : Gauge) : Prop :=
  x.capacity = 4 ∨ x.capacity ≤ 2 * x.size ∧ 2 * x.size ≤ x.capacity + 2

theorem Regular.four_le {x : Gauge} (h : Regular x) : 4 ≤ x.capacity := by
  obtain ⟨k, hk⟩ := h.power
  have hpos : 0 < 2 ^ k := Nat.two_pow_pos k
  omega

theorem Regular.exists_eq_eight_mul {x : Gauge} (h : Regular x) (hlarge : 4 < x.capacity) :
    ∃ k, x.capacity = 8 * 2 ^ k := by
  obtain ⟨_ | k, hk⟩ := h.power
  · omega
  · exact ⟨k, by omega⟩

/-- Exactly a quarter is in use when the capacity is halved. -/
theorem Regular.halved {size capacity next count : Nat} (h : Regular ⟨size + 1, capacity, count⟩)
    (hsmall : capacity ≤ 2 ^ 53) (hsparse : Policy.standard.shouldShrink size capacity = true)
    (hnext : Policy.standard.shrunk? capacity size = some next) :
    4 < capacity ∧ capacity = 4 * size ∧ next = 2 * size := by
  have hfits : size + 1 ≤ capacity := h.fits
  have hquarter := (Policy.standard_shouldShrink_iff (by omega) hsmall).mp hsparse
  obtain ⟨hmax, hlt⟩ := Policy.shrunk?_eq_some_iff.mp hnext
  rw [Policy.standard_smallest hsmall] at hmax
  have hlarge : 4 < capacity := by omega
  obtain ⟨k, hk : capacity = 8 * 2 ^ k⟩ := h.exists_eq_eight_mul hlarge
  have huse : capacity < 4 * (size + 1) := h.in_use.resolve_left hlarge.ne'
  exact ⟨hlarge, by omega, by omega⟩

/-- More than a quarter is in use, or the capacity is four, when it stays. -/
theorem Regular.stays {size capacity count : Nat} (h : Regular ⟨size + 1, capacity, count⟩)
    (hsmall : capacity ≤ 2 ^ 53)
    (hstays : Policy.standard.shouldShrink size capacity = false ∨
      Policy.standard.shrunk? capacity size = none) : capacity = 4 ∨ capacity < 4 * size := by
  have hfits : size + 1 ≤ capacity := h.fits
  have hfour : 4 ≤ capacity := h.four_le
  by_contra hsparse
  rcases hstays with hdense | hnone
  · rw [Bool.eq_false_iff, Ne, Policy.standard_shouldShrink_iff (by omega) hsmall] at hdense
    omega
  · have hsome : Policy.standard.shrunk? capacity size =
        some (max (max (capacity / 2) 4) size) := by
      rw [Policy.shrunk?_eq_some_iff, Policy.standard_smallest hsmall]
      exact ⟨rfl, by omega⟩
    rw [hsome] at hnone
    contradiction

theorem Step.regular {x y : Gauge} (h : Step .standard x y) (hsmall : x.capacity ≤ 2 ^ 53)
    (hx : Regular x) : Regular y := by
  cases h with
  | still => exact hx
  | added hroom =>
      obtain ⟨hfits, hpower, hinUse⟩ := hx
      refine ⟨?_, hpower, ?_⟩
      · exact Nat.lt_of_le_of_ne hfits hroom
      · exact hinUse.imp_right fun hless => hless.trans_le (Nat.mul_le_mul_left 4 (Nat.le_succ _))
  | @grown capacity next count hnext =>
      obtain rfl := Policy.standard_grown?_eq_some hx.four_le hsmall hnext
      obtain ⟨k, hk : capacity = 4 * 2 ^ k⟩ := hx.power
      have hfour : 4 ≤ capacity := hx.four_le
      refine ⟨?_, ⟨k + 1, ?_⟩, Or.inr ?_⟩
      · change capacity + 1 ≤ 2 * capacity
        omega
      · change 2 * capacity = 4 * 2 ^ (k + 1)
        omega
      · change 2 * capacity < 4 * (capacity + 1)
        omega
  | @removed size capacity count hstays =>
      exact ⟨(Nat.le_succ size).trans hx.fits, hx.power, hx.stays hsmall hstays⟩
  | @shrunk size capacity next count hsparse hnext =>
      obtain ⟨hlarge, rfl, rfl⟩ := hx.halved hsmall hsparse hnext
      obtain ⟨k, hk : 4 * size = 8 * 2 ^ k⟩ := hx.exists_eq_eight_mul hlarge
      refine ⟨?_, ⟨k, ?_⟩, Or.inr ?_⟩
      · change size ≤ 2 * size
        omega
      · change 2 * size = 4 * 2 ^ k
        omega
      · change 2 * size < 4 * size
        omega

/-- Only an array that is full or one element above the shrink line changes its
capacity, and then it is left centered. -/
theorem Step.changed {x y : Gauge} (h : Step .standard x y) (hsmall : x.capacity ≤ 2 ^ 53)
    (hx : Regular x) (hchanged : y.reallocations ≠ x.reallocations) :
    Centered y ∧ (y.size = x.size + 1 ∧ x.size = x.capacity ∨
      x.size = y.size + 1 ∧ 4 < x.capacity ∧ x.capacity = 4 * y.size) := by
  cases h with
  | still | added | removed => exact absurd rfl hchanged
  | @grown capacity next count hnext =>
      obtain rfl := Policy.standard_grown?_eq_some hx.four_le hsmall hnext
      refine ⟨Or.inr ?_, Or.inl ⟨rfl, rfl⟩⟩
      change 2 * capacity ≤ 2 * (capacity + 1) ∧ 2 * (capacity + 1) ≤ 2 * capacity + 2
      omega
  | @shrunk size capacity next count hsparse hnext =>
      obtain ⟨hlarge, rfl, rfl⟩ := hx.halved hsmall hsparse hnext
      exact ⟨Or.inr ⟨le_rfl, Nat.le_add_right _ 2⟩, Or.inr ⟨rfl, hlarge, rfl⟩⟩

theorem Step.unchanged {p : Policy} {x y : Gauge} (h : Step p x y)
    (hsame : y.reallocations = x.reallocations) : y.capacity = x.capacity := by
  cases h with
  | still | added | removed => rfl
  | @grown _ _ count | @shrunk _ _ _ count => exact absurd hsame (Nat.succ_ne_self count)

end Gauge

namespace DynArray

variable {α : Type} [Element α]

/-! ### Chains of operations -/

/-- What an operation on one array makes of it, with the memory that it finds. -/
def afterOne (a : DynArray α) (operation : Allocator × Command α) : DynArray α :=
  (operation.2.effect operation.1).after a

/-- What a chain of operations on one array makes of it. -/
def afterAll (operations : List (Allocator × Command α)) (a : DynArray α) : DynArray α :=
  operations.foldl afterOne a

/-- How many elements a chain of operations adds or takes away. -/
def traffic : List (Allocator × Command α) → DynArray α → Nat
  | [], _ => 0
  | operation :: rest, a =>
    let b := a.afterOne operation
    (b.size - a.size) + (a.size - b.size) + traffic rest b

/-- What is left of a new array after a chain of operations. -/
def life (memory : Allocator) (operations : List (Allocator × Command α)) :
    Option (DynArray α) :=
  (Workspace.vacant.runEach Command.effect
    ((.first, memory, .new) :: operations.map fun operation => (.first, operation))).2.first

/-- The last operation of the chain changed the capacity, or there was none and the array
is new. -/
def JustReallocated (memory : Allocator) (operations : List (Allocator × Command α))
    (a : DynArray α) : Prop :=
  operations = [] ∨ ∃ earlier operation, operations = earlier ++ [operation] ∧
    ∃ b ∈ life memory earlier, a.reallocations ≠ b.reallocations

theorem life_eq {memory : Allocator} {operations : List (Allocator × Command α)}
    (h : ∀ operation ∈ operations, operation.2.IsSingle) :
    life memory operations = (new memory).toOption.map (afterAll operations) := by
  have hwork : ∀ effect ∈ operations.map (fun operation => operation.2.effect operation.1),
      effect.IsWork := by
    simp only [List.mem_map]
    rintro effect ⟨operation, hmem, rfl⟩
    exact Command.isWork (h operation hmem) operation.1
  have hrun := Workspace.get_run hwork
    ((Workspace.vacant.perform .first (Command.new.effect memory)).2) .first
  simp only [List.foldl_map, List.map_map] at hrun
  rw [life, Workspace.runEach, List.map_cons, List.map_map]
  refine hrun.trans ?_
  congr 1
  cases hnew : new (α := α) memory <;> simp [Command.effect, hnew] <;> rfl

theorem afterAll_append (earlier later : List (Allocator × Command α)) (a : DynArray α) :
    afterAll (earlier ++ later) a = afterAll later (afterAll earlier a) :=
  List.foldl_append

/-! ### Steady arrays -/

structure Steady (a : DynArray α) : Prop where
  policy_eq : a.policy = .standard
  regular : a.gauge.Regular

theorem steady_new {memory : Allocator} {a : DynArray α} (h : new memory = .ok a) :
    a.Steady ∧ a.capacity = 4 := by
  obtain ⟨hwide, hcapacity⟩ := ofPolicy_widened h
  have hempty : a.toList.length = 0 := List.length_eq_zero_iff.mpr hwide.toList_eq
  have hfour : a.capacity = 4 := hcapacity
  refine ⟨⟨hwide.policy_eq, ⟨?_, ⟨0, hfour⟩, Or.inl hfour⟩⟩, hfour⟩
  change a.toList.length ≤ a.capacity
  omega

theorem Steady.step {operation : Allocator × Command α} {a : DynArray α} (ha : a.Steady)
    (h : operation.2.IsSingle) : Gauge.Step .standard a.gauge (a.afterOne operation).gauge :=
  ha.policy_eq ▸ (Command.moved h operation.1 a).step

theorem Steady.afterOne {operation : Allocator × Command α} {a : DynArray α} (ha : a.Steady)
    (h : operation.2.IsSingle) (hsmall : a.capacity ≤ 2 ^ 53) : (a.afterOne operation).Steady where
  policy_eq := (Command.moved h operation.1 a).policy_eq.trans ha.policy_eq
  regular := (ha.step h).regular hsmall ha.regular

/-- The array stays small all along a chain of operations on single elements. -/
structure SmallSteps (operations : List (Allocator × Command α)) (a : DynArray α) : Prop where
  single : ∀ operation ∈ operations, operation.2.IsSingle
  small : ∀ earlier, earlier <+: operations → (afterAll earlier a).capacity ≤ 2 ^ 53

theorem SmallSteps.here {operations : List (Allocator × Command α)} {a : DynArray α}
    (h : SmallSteps operations a) : a.capacity ≤ 2 ^ 53 :=
  h.small [] List.nil_prefix

theorem SmallSteps.of_append {earlier later : List (Allocator × Command α)}
    {a : DynArray α} (h : SmallSteps (earlier ++ later) a) :
    SmallSteps earlier a ∧ SmallSteps later (afterAll earlier a) := by
  refine ⟨⟨?_, ?_⟩, ?_, ?_⟩
  · exact fun operation hmem => h.single operation (List.mem_append_left later hmem)
  · exact fun first hfirst => h.small first (hfirst.trans (List.prefix_append earlier later))
  · exact fun operation hmem => h.single operation (List.mem_append_right earlier hmem)
  · intro first hfirst
    rw [← afterAll_append]
    exact h.small _ ((List.prefix_append_right_inj earlier).mpr hfirst)

theorem SmallSteps.of_cons {operation : Allocator × Command α}
    {rest : List (Allocator × Command α)} {a : DynArray α} (h : SmallSteps (operation :: rest) a) :
    operation.2.IsSingle ∧ SmallSteps rest (a.afterOne operation) :=
  ⟨h.single operation List.mem_cons_self, (@of_append _ _ [operation] rest a h).2⟩

theorem Steady.afterAll {operations : List (Allocator × Command α)} {a : DynArray α}
    (ha : a.Steady) (h : SmallSteps operations a) :
    (DynArray.afterAll operations a).Steady := by
  induction operations generalizing a with
  | nil => exact ha
  | cons operation rest ih =>
      obtain ⟨hsingle, hrest⟩ := h.of_cons
      exact ih (ha.afterOne hsingle h.here) hrest

/-- The induction is on the operations to come.  Before the capacity changes, the array has
to become full, or to come down to the shrink line; from then on there is nothing more
to show. -/
theorem Steady.traffic_of_changed {operations : List (Allocator × Command α)}
    {a : DynArray α} (ha : a.Steady) (h : SmallSteps operations a)
    (hchanged : (DynArray.afterAll operations a).reallocations ≠ a.reallocations) :
    a.capacity + 1 ≤ a.size + traffic operations a ∨
      4 < a.capacity ∧ 4 * a.size ≤ a.capacity + 4 * traffic operations a := by
  induction operations generalizing a with
  | nil => exact absurd rfl hchanged
  | cons operation rest ih =>
      obtain ⟨hsingle, hrest⟩ := h.of_cons
      have hstep := ha.step hsingle
      have hafter := ha.afterOne hsingle h.here
      change (DynArray.afterAll rest (a.afterOne operation)).reallocations ≠
        a.reallocations at hchanged
      simp only [traffic, size_eq_length] at ih ⊢
      generalize a.afterOne operation = b at *
      by_cases hsame : b.reallocations = a.reallocations
      · have hcapacity : b.capacity = a.capacity := hstep.unchanged hsame
        have hlater := ih hafter hrest (by rwa [hsame])
        omega
      · obtain ⟨-, hsizes⟩ := hstep.changed h.here ha.regular hsame
        simp only [gauge] at hsizes
        omega

/-- A change of the capacity leaves the array centered, and so does its construction. -/
theorem centered_of_justReallocated {memory : Allocator}
    {operations : List (Allocator × Command α)} {empty b : DynArray α}
    (hnew : new memory = .ok empty) (hsmall : SmallSteps operations empty)
    (hb : b = afterAll operations empty) (h : JustReallocated memory operations b) :
    b.gauge.Centered := by
  obtain ⟨hsteady, hfour⟩ := steady_new hnew
  rcases h with rfl | ⟨earlier, operation, rfl, c, hc, hchanged⟩
  · exact Or.inl (hb ▸ hfour)
  · obtain ⟨hearlier, hlast⟩ := hsmall.of_append
    obtain ⟨hsingle, -⟩ := hlast.of_cons
    rw [life_eq hearlier.single, hnew] at hc
    obtain rfl : afterAll earlier empty = c := Option.some.inj hc
    obtain rfl := hb.trans (afterAll_append earlier [operation] empty)
    have hreached := hsteady.afterAll hearlier
    exact ((hreached.step hsingle).changed hlast.here hreached.regular hchanged).1

/-- From a centered array on, a quarter of the capacity has to be filled or emptied. -/
theorem Steady.le_traffic {operations : List (Allocator × Command α)} {a : DynArray α}
    (ha : a.Steady) (h : SmallSteps operations a) (hcentered : a.gauge.Centered)
    (hchanged : (DynArray.afterAll operations a).reallocations ≠ a.reallocations) :
    a.capacity ≤ 4 * traffic operations a := by
  have hfits : a.toList.length ≤ a.capacity := ha.regular.fits
  have hhalf : a.capacity = 4 ∨
      a.capacity ≤ 2 * a.toList.length ∧ 2 * a.toList.length ≤ a.capacity + 2 := hcentered
  have hmoved := ha.traffic_of_changed h hchanged
  rw [size_eq_length] at hmoved
  omega

/-- A new array under operations on single elements, as long as its capacity is at most
`2^53`.  Its capacity is four times a power of two and, unless it is four, more than a
quarter of it is in use.  After a change of the capacity, its construction among them,
it is not changed again before a quarter of it was filled or emptied. -/
theorem run_reallocates_rarely (memory : Allocator) (operations : List (Allocator × Command α))
    (hsingle : ∀ operation ∈ operations, operation.2.IsSingle)
    (hsmall : ∀ earlier, earlier <+: operations →
      ∀ b ∈ life memory earlier, b.capacity ≤ 2 ^ 53)
    (a : DynArray α) (ha : a ∈ life memory operations) :
    (∃ k, a.capacity = 4 * 2 ^ k) ∧ (a.capacity = 4 ∨ a.capacity < 4 * a.size) ∧
      (a.size = 0 → a.capacity = 4) ∧
      ∀ earlier between b, operations = earlier ++ between → b ∈ life memory earlier →
        JustReallocated memory earlier b → a.reallocations ≠ b.reallocations →
          b.capacity ≤ 4 * traffic between b := by
  obtain ⟨empty, hempty, rfl⟩ := Option.map_eq_some_iff.mp (life_eq hsingle ▸ ha)
  have hnew : new memory = .ok empty := by
    cases hresult : new (α := α) memory <;> simp_all [Except.toOption]
  have hsteps : SmallSteps operations empty := by
    refine ⟨hsingle, fun earlier hearlier => hsmall earlier hearlier _ ?_⟩
    rw [life_eq fun operation hmem => hsingle operation (hearlier.subset hmem), hempty]
    rfl
  obtain ⟨hsteady, -⟩ := steady_new hnew
  obtain ⟨hpolicy, hfits, hpower, hinUse⟩ := hsteady.afterAll hsteps
  have huse : (afterAll operations empty).capacity = 4 ∨
      (afterAll operations empty).capacity < 4 * (afterAll operations empty).size := by
    rw [size_eq_length]
    exact hinUse
  refine ⟨hpower, huse, ?_, ?_⟩
  · intro hzero
    exact huse.resolve_right (by omega)
  · rintro earlier between b rfl hb hjust hchanged
    obtain ⟨hearlier, hbetween⟩ := hsteps.of_append
    rw [life_eq hearlier.single, hempty] at hb
    obtain rfl : afterAll earlier empty = b := Option.some.inj hb
    rw [afterAll_append] at hchanged
    exact (hsteady.afterAll hearlier).le_traffic hbetween
      (centered_of_justReallocated hnew hearlier rfl hjust) hchanged

namespace AmortizationWitness

def filling : List (Allocator × Command UInt8) :=
  [(.exhausted, .pushBack 1), (.exhausted, .pushFront 2), (.exhausted, .insert 1 3),
    (.exhausted, .pushBack 4), (.exhausted, .pushBack 5)]

def doubling : List (Allocator × Command UInt8) := filling ++ [(.addressSpace, .pushBack 5)]

def emptying : List (Allocator × Command UInt8) :=
  [(.exhausted, .popBack), (.exhausted, .removeChecked 0), (.exhausted, .back?),
    (.exhausted, .popFront?)]

/-- The numbers of what is left of a new array. -/
def numbers (operations : List (Allocator × Command UInt8)) : Option (Nat × Nat × Nat) :=
  (life .addressSpace operations).map fun a => (a.size, a.capacity, a.reallocations)

/-- The fifth element finds no memory at first; then it doubles the capacity to eight.  When
three of the five are taken away, it is halved again, for which no memory is needed. -/
theorem run_reallocates_rarely_halved :
    ∃ a b, b ∈ life .addressSpace doubling ∧
      a ∈ life .addressSpace (doubling ++ emptying) ∧ b.capacity = 8 ∧
      a.capacity = 4 ∧ (∃ k, a.capacity = 4 * 2 ^ k) ∧
      b.capacity ≤ 4 * traffic emptying b := by
  have hsingle : ∀ operation ∈ doubling ++ emptying, operation.2.IsSingle := by
    simp [doubling, filling, emptying, Command.IsSingle]
  have hsmall : ∀ earlier ∈ (doubling ++ emptying).inits,
      ∀ b ∈ life .addressSpace earlier, b.capacity ≤ 2 ^ 53 := by
    decide +kernel
  have hbefore : numbers filling = some (4, 4, 1) := by decide +kernel
  have hdoubled : numbers doubling = some (5, 8, 2) := by decide +kernel
  have hhalved : numbers (doubling ++ emptying) = some (2, 4, 3) := by
    decide +kernel
  simp only [numbers, Option.map_eq_some_iff, Prod.mk.injEq] at hbefore hdoubled hhalved
  obtain ⟨c, hc, -, -, hcountC⟩ := hbefore
  obtain ⟨b, hb, -, hcapacityB, hcountB⟩ := hdoubled
  obtain ⟨a, ha, -, hcapacityA, hcountA⟩ := hhalved
  obtain ⟨hpower, -, -, hrarely⟩ := run_reallocates_rarely .addressSpace _ hsingle
    (fun earlier hearlier => hsmall earlier ((List.mem_inits earlier _).mpr hearlier)) a ha
  have hjust : JustReallocated .addressSpace doubling b :=
    Or.inr ⟨filling, (.addressSpace, .pushBack 5), rfl, c, hc, by omega⟩
  exact ⟨a, b, hb, ha, hcapacityB, hcapacityA, hpower,
    hrarely _ emptying b rfl hb hjust (by omega)⟩

end AmortizationWitness

end DynArray

end Containers
