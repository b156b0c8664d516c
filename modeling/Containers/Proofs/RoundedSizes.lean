/-
The standard policy halves at a quarter and doubles when full, in rounded numbers.
Sizes are rounded before they are compared and before they are multiplied, so past
`2^53` an array can shrink above its quarter, and a full one can miss its double by what
rounding did to its capacity.
-/
import Containers.Proofs.Hysteresis

namespace Containers

open Binary64

namespace Gauge.Step

variable {p : Policy} {x y : Gauge}

/-- A full array takes an element in only after a step up. -/
theorem grown_of_full (h : Step p x y) (hfull : x.size = x.capacity)
    (hmore : y.size = x.size + 1) : p.grown? x.capacity = some y.capacity := by
  cases h with
  | still => exact absurd hmore (Nat.succ_ne_self _).symm
  | added hroom => exact absurd hfull hroom
  | grown hnext => exact hnext
  | removed | shrunk =>
      simp only at hmore
      omega

end Gauge.Step

namespace DynArray

variable {α : Type} [Element α]

/-- Under the standard policy an operation on single elements shrinks an array only if
four times its size is at most its capacity, where both are rounded; so it is where the
size is not rounded down and the capacity not rounded up.  A full array that takes an
element in has twice its rounded capacity afterwards, which is twice its capacity exactly
if that is not changed by rounding.  Up to `2^53` nothing is. -/
theorem run_compares_rounded_sizes (operations : List (Place × Allocator × Command α))
    (place : Place) (memory : Allocator) (command : Command α) (hsingle : command.IsSingle)
    (a b : DynArray α)
    (ha : a ∈ (Workspace.vacant.runEach Command.effect operations).2.get place)
    (hb : b ∈ (Workspace.vacant.runEach Command.effect
      (operations ++ [(place, memory, command)])).2.get place)
    (hpolicy : a.policy = .standard) :
    (b.capacity < a.capacity → 4 * nearest b.size ≤ nearest a.capacity ∧
      (b.size ≤ nearest b.size → nearest a.capacity ≤ a.capacity →
        4 * b.size ≤ a.capacity)) ∧
      (a.size = a.capacity → b.size = a.size + 1 →
        b.capacity = 2 * nearest a.capacity ∧
          (b.capacity = 2 * a.capacity ↔ nearest a.capacity = a.capacity)) ∧
      (a.capacity ≤ 2 ^ 53 →
        (b.capacity < a.capacity → 4 * b.size ≤ a.capacity) ∧
          (a.size = a.capacity → b.size = a.size + 1 → b.capacity = 2 * a.capacity)) := by
  have hbounded : a.Bounded := run_bounded operations place a ha
  have hmin : 4 ≤ a.capacity := by
    have habove := hbounded.above_min
    rwa [hpolicy] at habove
  have hmax : a.capacity ≤ maxSize := hbounded.within_limit.trans (slotLimit_le_maxSize _)
  have hboundedB : b.Bounded := run_bounded _ place b hb
  have hfits : b.size ≤ b.capacity := b.size_eq_length ▸ hboundedB.fits
  have hsize : b.size ≤ maxSize :=
    (hfits.trans hboundedB.within_limit).trans (slotLimit_le_maxSize _)
  have hstep : Gauge.Step .standard a.gauge b.gauge := hpolicy ▸ (run_moved hsingle ha hb).step
  simp only [gauge, ← size_eq_length] at hstep
  have hquarter : b.capacity < a.capacity → 4 * nearest b.size ≤ nearest a.capacity := fun hless =>
    (Policy.standard_shouldShrink_iff_nearest hsize hmin hmax).mp (hstep.of_lowered hless).2.1
  have hexact : b.capacity < a.capacity → b.size ≤ nearest b.size →
      nearest a.capacity ≤ a.capacity → 4 * b.size ≤ a.capacity := by
    intro hless hdown hup
    have hcast : (4 : Rat) * b.size ≤ a.capacity := by linarith [hquarter hless]
    exact_mod_cast hcast
  have hdouble : a.size = a.capacity → b.size = a.size + 1 →
      (b.capacity : Rat) = 2 * nearest a.capacity := fun hfull hmore =>
    Policy.standard_grown?_eq_some_nearest hmin hmax (hstep.grown_of_full hfull hmore)
  have hdouble_iff : a.size = a.capacity → b.size = a.size + 1 →
      (b.capacity = 2 * a.capacity ↔ nearest a.capacity = a.capacity) := by
    intro hfull hmore
    have hcast : b.capacity = 2 * a.capacity ↔ (b.capacity : Rat) = 2 * a.capacity := by
      exact_mod_cast Iff.rfl
    simp [hcast, hdouble hfull hmore]
  refine ⟨fun hless => ⟨hquarter hless, hexact hless⟩,
    fun hfull hmore => ⟨hdouble hfull hmore, hdouble_iff hfull hmore⟩, fun hsmall => ?_⟩
  have hcapacity : nearest a.capacity = a.capacity := nearest_natCast_of_le hsmall
  refine ⟨fun hless => hexact hless ?_ hcapacity.le,
    fun hfull hmore => (hdouble_iff hfull hmore).mpr hcapacity⟩
  exact (nearest_natCast_of_le (by omega)).ge

namespace RoundedSizesWitness

/-- Elements that take no memory, one more than a quarter of `2^63` of them and one to be
taken away. -/
def quarter : List (Command Unit) :=
  [.new, .reserve 9223372036854775808, .extendBy ⟨2305843009213693954⟩]

/-- A full array with a capacity that is rounded down to `2^53`. -/
def full : List (Command Unit) :=
  [.new, .reserve 9007199254740993, .extendBy ⟨9007199254740993⟩]

/-- Elements that take no memory need none. -/
def operations (commands : List (Command Unit)) : List (Place × Allocator × Command Unit) :=
  commands.map fun command => (.first, .exhausted, command)

/-- What these operations leave after others. -/
def left (commands later : List (Command Unit)) : Option (DynArray Unit) :=
  (Workspace.vacant.runEach Command.effect (operations commands ++ operations later)).2.first

/-- The size and the capacity of what is left. -/
def numbers (commands later : List (Command Unit)) : Option (Nat × Nat) :=
  (left commands later).map fun a => (a.size, a.capacity)

/-- The removal shrinks with a quarter of the rounded sizes, and the addition doubles the
rounded capacity. -/
theorem run_compares_rounded_sizes_past_digits :
    (∃ a b, a ∈ left quarter [] ∧ b ∈ left quarter [.popBack] ∧
      b.capacity < a.capacity ∧ 4 * nearest b.size ≤ nearest a.capacity) ∧
      ∃ a b, a ∈ left full [] ∧ b ∈ left full [.pushBack ()] ∧
        a.size = a.capacity ∧ b.size = a.size + 1 ∧ b.capacity = 2 * nearest a.capacity := by
  have hpolicyQuarter : ∀ a ∈ left quarter [], a.policy = .standard := by decide +kernel
  have hpolicyFull : ∀ a ∈ left full [], a.policy = .standard := by decide +kernel
  have hquarter : numbers quarter [] = some (2305843009213693954, 9223372036854775808) := by
    decide +kernel
  have hshrunk : numbers quarter [.popBack] =
      some (2305843009213693953, 4611686018427387904) := by decide +kernel
  have hfull : numbers full [] = some (9007199254740993, 9007199254740993) := by decide +kernel
  have hgrown : numbers full [.pushBack ()] =
      some (9007199254740994, 18014398509481984) := by decide +kernel
  simp only [numbers, Option.map_eq_some_iff, Prod.mk.injEq] at hquarter hshrunk hfull hgrown
  constructor
  · obtain ⟨a, ha, -, hcapacityA⟩ := hquarter
    obtain ⟨b, hb, -, hcapacityB⟩ := hshrunk
    have hless : b.capacity < a.capacity := by omega
    obtain ⟨hline, -⟩ := run_compares_rounded_sizes (operations quarter) .first .exhausted
      .popBack trivial a b ha hb (hpolicyQuarter a ha)
    exact ⟨a, b, ha, hb, hless, (hline hless).1⟩
  · obtain ⟨a, ha, hsizeA, hcapacityA⟩ := hfull
    obtain ⟨b, hb, hsizeB, -⟩ := hgrown
    have hfull : a.size = a.capacity := by omega
    have hmore : b.size = a.size + 1 := by omega
    obtain ⟨-, hdouble, -⟩ := run_compares_rounded_sizes (operations full) .first .exhausted
      (.pushBack ()) trivial a b ha hb (hpolicyFull a ha)
    exact ⟨a, b, ha, hb, hfull, hmore, (hdouble hfull hmore).1⟩

/-- Four times the size after the removal is more than the capacity before it, and the
capacity after the addition is two less than twice the capacity before it. -/
theorem rounding_moves_both_lines :
    numbers quarter [] = some (2305843009213693954, 9223372036854775808) ∧
      numbers quarter [.popBack] =
        some (2305843009213693953, 4611686018427387904) ∧
      9223372036854775808 < 4 * 2305843009213693953 ∧
      numbers full [] = some (9007199254740993, 9007199254740993) ∧
      numbers full [.pushBack ()] = some (9007199254740994, 18014398509481984) ∧
      18014398509481984 < 2 * 9007199254740993 := by
  decide +kernel

end RoundedSizesWitness

end DynArray

end Containers
