/-
Growing and shrinking do not undo each other.  An array that has grown is above the
shrink line for every policy, as long as its capacity was below `2^53`, where sizes are
exact.  One that has shrunk is below the grow line exactly if the capacities that are
shrunk to have a band of sizes above the shrink line; a policy with threshold times
growth factor just below one may have none at a small capacity, because capacities are
whole numbers.
-/
import Containers.Proofs.Gauge
import Containers.Proofs.PolicyNumbers

namespace Containers

open Binary64

namespace Policy

/-! ### Above the shrink line -/

/-- Half a gap past `m` for `capacity` steps of the growth factor keeps the quotient of
`m + 1` away from `capacity + 1`. -/
theorem lt_mul_of_half_gap {capacity m gap gap' g : Rat} (hpos : 0 < capacity)
    (hm : capacity + 1 ≤ m) (hgap : 0 < gap) (hle : gap ≤ gap') (hone : gap' ≤ 1)
    (hproduct : m + gap' / 2 ≤ capacity * g) : m + 1 < (capacity + 1 - gap / 2) * g := by
  have hslack : 0 < (1 - gap' / 2) * (m - capacity + gap' / 2) :=
    mul_pos (by linarith) (by linarith)
  refine lt_of_mul_lt_mul_right ?_ hpos.le
  calc (m + 1) * capacity < (capacity + 1 - gap' / 2) * (m + gap' / 2) := by linarith
    _ ≤ (capacity + 1 - gap / 2) * (capacity * g) :=
        mul_le_mul (by linarith) hproduct (by linarith) (by linarith)
    _ = (capacity + 1 - gap / 2) * g * capacity := by ring

/-- A factor that is off from one by `gap 1` makes up for half of the gap below an
integer. -/
theorem lt_mul_of_gap_one {n gap g : Rat} (hpos : 0 < n) (hgap : 2 ^ 52 * gap ≤ n)
    (hg : 1 + 2 ^ (-52 : Int) ≤ g) : n < (n - gap / 2) * g := by
  have hsmall : gap ≤ n * 2 ^ (-52 : Int) := by
    rw [zpow_neg, ← div_eq_mul_inv, le_div_iff₀ (by positivity)]
    calc gap * 2 ^ (52 : Int) = 2 ^ 52 * gap := by rw [mul_comm]; rfl
      _ ≤ n := hgap
  have hunit : (2 : Rat) ^ (-52 : Int) < 1 := zpow_lt_one_of_neg₀ one_lt_two (by norm_num)
  have hunitPos : (0 : Rat) < 2 ^ (-52 : Int) := by positivity
  generalize (2 : Rat) ^ (-52 : Int) = u at *
  have hslack : 0 < n * u * (1 - u) := mul_pos (mul_pos hpos hunitPos) (by linarith)
  calc n < (n - n * u / 2) * (1 + u) := by linarith
    _ ≤ (n - gap / 2) * g := mul_le_mul (by linarith) hg (by linarith) (by nlinarith)

/-- The step up from a capacity is undone by the growth factor: the quotient does not
reach the size after the step, not even by rounding.  Either the step is by one, and
the growth factor is off from one by at least a gap, or the product was past half of
a gap, which is more than the rounding of the quotient can make up for. -/
theorem nearest_div_growth_lt {p : Policy} {capacity target : Nat} (hpos : 0 < capacity)
    (hmin : p.minCapacity ≤ capacity) (hgrown : p.grown? capacity = some target)
    (htarget : target ≤ 2 ^ 53) : nearest (target / p.growth) < (capacity + 1 : Nat) := by
  have hup : capacity < target := lt_of_grown? hgrown
  have hg := p.growth_pos
  obtain ⟨n, heq, -, hn⟩ := grown?_eq_some (by omega) hgrown
  have hquotient : 0 ≤ (target : Rat) / p.growth := div_nonneg (Nat.cast_nonneg target) hg.le
  refine nearest_lt_of_lt_sub hquotient (Nat.succ_pos capacity) (by omega) ?_
  rw [div_lt_iff₀ hg]
  rcases Nat.lt_or_ge (capacity + 1) n with hlarge | hsmall
  · obtain ⟨m, rfl⟩ : ∃ m, n = m + 1 := ⟨n - 1, by omega⟩
    have hsame : target = m + 1 := by omega
    have hm : m < 2 ^ 53 := by omega
    have hcm : capacity + 1 ≤ m := by omega
    have hproduct : (m : Rat) + gap m / 2 ≤ capacity * p.growth := by
      refine add_half_gap_le_of_lt_nearest ?_ (by omega) hm ?_
      · exact mul_nonneg (Nat.cast_nonneg capacity) hg.le
      · push_cast at hn
        linarith
    rw [hsame]
    push_cast
    exact lt_mul_of_half_gap (by exact_mod_cast hpos) (by exact_mod_cast hcm) (gap_pos _)
      (gap_mono hcm) (gap_le_one (by omega) hm) hproduct
  · have hsame : target = capacity + 1 := by omega
    have hfactor : (1 : Nat) + gap 1 ≤ p.growth :=
      add_gap_le_of_lt one_pos (by norm_num) p.representable_growth
        (by simpa using p.growth_spec.2)
    rw [Nat.cast_one] at hfactor
    rw [hsame]
    exact lt_mul_of_gap_one (by positivity) (two_pow_mul_gap_le (Nat.succ_pos capacity)) hfactor

/-- Where the step up goes past `2^53`, its product is an integer, and rounding added
less to it than the threshold takes away. -/
theorem mul_threshold_lt_of_large {p : Policy} {capacity target : Nat} (hpos : 0 < capacity)
    (hmin : p.minCapacity ≤ capacity) (hcapacity : capacity < 2 ^ 53)
    (hgrown : p.grown? capacity = some target) (htarget : 2 ^ 53 < target) :
    (target : Rat) = nearest target ∧ (target : Rat) * p.threshold < capacity + 1 / 2 := by
  have hpos' : (1 : Rat) ≤ capacity := by exact_mod_cast hpos
  have hone : (1 : Rat) ≤ capacity * p.growth :=
    one_le_mul_of_one_le_of_one_le hpos' p.growth_spec.2.le
  have hrepresentable := representable_nearest (zero_le_one.trans hone)
  obtain ⟨n, heq, hlow, hhigh⟩ := grown?_eq_some hcapacity.le hgrown
  obtain rfl : target = n := by omega
  have hproduct : (target : Rat) = nearest (capacity * p.growth) := by
    have hlarge : (2 : Rat) ^ 53 + 1 ≤ target := by exact_mod_cast htarget
    obtain ⟨k, hk⟩ := exists_natCast_eq hrepresentable (by linarith)
    rw [hk] at hlow hhigh ⊢
    have hle : k ≤ target := by exact_mod_cast hlow
    have hlt : target < k + 1 := by exact_mod_cast hhigh
    exact congrArg Nat.cast (by omega : target = k)
  refine ⟨by rw [hproduct, nearest_of_representable hrepresentable], ?_⟩
  have hadded := nearest_le_add hone
  have htaken := p.threshold_mul_growth_le
  have hless : (capacity : Rat) < 2 ^ 53 := by exact_mod_cast hcapacity
  have hthreshold := p.threshold_spec.2.1
  calc (target : Rat) * p.threshold
      ≤ (capacity * p.growth + capacity * p.growth * 2 ^ (-53 : Int)) * p.threshold :=
        hproduct ▸ mul_le_mul_of_nonneg_right hadded hthreshold.le
    _ = capacity * (1 + 2 ^ (-53 : Int)) * (p.threshold * p.growth) := by ring
    _ ≤ capacity * (1 + 2 ^ (-53 : Int)) * (1 - 2 ^ (-54 : Int)) := by gcongr
    _ < capacity + 1 / 2 := by
        norm_num
        linarith

/-- An array that has grown from below `2^53` is not sparse. -/
theorem shouldShrink_grown {p : Policy} {capacity target : Nat} (hpos : 0 < capacity)
    (hmin : p.minCapacity ≤ capacity) (hcapacity : capacity < 2 ^ 53)
    (hgrown : p.grown? capacity = some target) (htarget : target ≤ maxSize) :
    p.shouldShrink (capacity + 1) target = false := by
  have hup : capacity < target := lt_of_grown? hgrown
  have hthreshold := p.threshold_spec.2.1
  have hsize : Representable (capacity + 1 : Nat) := representable_natCast hcapacity
  rw [Bool.eq_false_iff, Ne, shouldShrink_iff (by omega) htarget, not_le,
    nearest_of_representable hsize]
  rcases Nat.lt_or_ge (2 ^ 53) target with hlarge | hsmall
  · obtain ⟨hexact, hless⟩ := mul_threshold_lt_of_large hpos hmin hcapacity hgrown hlarge
    rw [← hexact]
    refine nearest_lt_of_lt_middle ?_ (representable_natCast hcapacity.le) ?_ ?_
    · exact mul_nonneg (Nat.cast_nonneg target) hthreshold.le
    · exact_mod_cast Nat.lt_succ_self capacity
    · push_cast
      linarith
  · rw [nearest_natCast_of_le hsmall]
    refine lt_of_le_of_lt (nearest_mono ?_ ?_) (nearest_div_growth_lt hpos hmin hgrown hsmall)
    · exact mul_nonneg (Nat.cast_nonneg target) hthreshold.le
    · exact p.mul_threshold_le_div_growth (Nat.cast_nonneg target)

/-- From `2^53` on, where sizes are rounded, an array can be sparse after it has grown. -/
example : ∃ p : Policy, (p.grown? 9007199254740995).map (p.shouldShrink 9007199254740996) =
    some true :=
  ⟨⟨⟨⟨0x3ff001c0965718ff⟩, ⟨0x3feffc7f3588dd85⟩, 1⟩, by decide +kernel⟩, by decide +kernel⟩

/-- The capacity after a step up is shrunk to no more than the capacity before. -/
theorem smallest_grown_le {p : Policy} {capacity target : Nat} (hpos : 0 < capacity)
    (hmin : p.minCapacity ≤ capacity) (hgrown : p.grown? capacity = some target)
    (htarget : target ≤ 2 ^ 53) : p.smallest target ≤ capacity := by
  have hup : capacity < target := lt_of_grown? hgrown
  have hmax : target ≤ maxSize := le_maxSize_of_le_two_pow htarget
  have hexact := nearest_natCast_of_le htarget
  rw [smallest_eq hmax, hexact]
  refine max_le (Nat.le_of_not_lt ?_) hmin
  rw [← Nat.succ_le_iff, Value.le_toSize_iff (by omega), not_le]
  · exact nearest_div_growth_lt hpos hmin hgrown htarget
  · exact nearest_nonneg (div_nonneg (Nat.cast_nonneg target) p.growth_pos.le)

/-! ### Below the grow line -/

/-- There are sizes between the smallest capacity that is shrunk to and the shrink
line. -/
def HasBand (p : Policy) (capacity : Nat) : Prop :=
  p.smallest capacity < capacity → p.shouldShrink (p.smallest capacity) capacity = false

instance (p : Policy) (capacity : Nat) : Decidable (p.HasBand capacity) :=
  inferInstanceAs (Decidable (_ → _))

/-- What a capacity is shrunk to has room for one more element exactly if there is a
band. -/
theorem hasBand_iff {p : Policy} {capacity : Nat} (hcapacity : capacity ≤ maxSize) :
    p.HasBand capacity ↔ ∀ size target, p.shouldShrink size capacity = true →
      p.shrunk? capacity size = some target → size < target := by
  constructor
  · intro hband size target hsparse hshrunk
    obtain ⟨rfl, hlt⟩ := shrunk?_eq_some_iff.mp hshrunk
    by_contra hfull
    have hdense := hband (by omega)
    rw [shouldShrink_of_le (by omega) (by omega : size ≤ maxSize) hcapacity hsparse] at hdense
    contradiction
  · intro hroom hlt
    by_contra hsparse
    have hshrunk : p.shrunk? capacity (p.smallest capacity) = some (p.smallest capacity) :=
      shrunk?_eq_some_iff.mpr ⟨(max_self _).symm, hlt⟩
    exact (hroom _ _ (by simpa using hsparse) hshrunk).false

/-- From the smallest capacity that is shrunk to on, nothing is shrunk. -/
theorem HasBand.stays {p : Policy} {size capacity target : Nat} (h : p.HasBand capacity)
    (hcapacity : capacity ≤ maxSize) (hsize : p.smallest capacity ≤ size)
    (hsparse : p.shouldShrink size capacity = true) : p.shrunk? capacity size ≠ some target := by
  intro hshrunk
  have hroom := (hasBand_iff hcapacity).mp h size target hsparse hshrunk
  obtain ⟨rfl, -⟩ := shrunk?_eq_some_iff.mp hshrunk
  omega

/-- Two steps between the shrink line and the quotient by the growth factor are enough
for a band. -/
theorem hasBand_of_wide {p : Policy} {capacity : Nat} (hcapacity : capacity ≤ 2 ^ 53)
    (hwide : p.growth * (capacity * p.threshold + 2) ≤ capacity) : p.HasBand capacity := by
  intro hlt
  have hmax : capacity ≤ maxSize := le_maxSize_of_le_two_pow hcapacity
  have hquotient : (capacity : Rat) * p.threshold + 2 ≤ capacity / p.growth :=
    (le_div_iff₀' p.growth_pos).mpr hwide
  have hline : 0 ≤ (capacity : Rat) * p.threshold :=
    mul_nonneg (Nat.cast_nonneg capacity) p.threshold_spec.2.1.le
  have hbelow : capacity / p.growth ≤ (2 : Rat) ^ 53 :=
    (div_le_self (Nat.cast_nonneg capacity) p.growth_spec.2.le).trans (by exact_mod_cast hcapacity)
  have hcloseLine := abs_le.mp (abs_sub_nearest_le hline (by linarith))
  have hcloseQuotient := abs_le.mp (abs_sub_nearest_le (by linarith) hbelow)
  have hexact := nearest_natCast_of_le hcapacity
  have hpast : nearest (capacity / p.growth) < (p.smallest capacity + 1 : Nat) := by
    have hle : (Value.finite (nearest (capacity / p.growth))).toSize ≤ p.smallest capacity := by
      rw [smallest_eq hmax, hexact]
      exact le_max_left _ _
    rw [← not_le, ← Value.le_toSize_iff (by omega) (nearest_nonneg (by linarith)), not_le]
    exact Nat.lt_succ_of_le hle
  rw [Bool.eq_false_iff, Ne, shouldShrink_iff (by omega) hmax, not_le, hexact,
    nearest_natCast_of_le (by omega)]
  push_cast at hpast
  linarith

/-- The standard policy has a band everywhere. -/
theorem standard_hasBand {capacity : Nat} (hcapacity : capacity ≤ 2 ^ 53) :
    standard.HasBand capacity := by
  intro hlt
  rw [Bool.eq_false_iff, Ne, standard_shouldShrink_iff (hlt.le.trans hcapacity) hcapacity]
  rw [standard_smallest hcapacity] at hlt ⊢
  omega

end Policy

/-! ### Two operations in a row -/

namespace Gauge.Step

variable {p : Policy} {x y : Gauge}

/-- What has shrunk has room. -/
theorem size_lt (h : Step p x y) (hcapacity : x.capacity ≤ maxSize)
    (hband : p.HasBand x.capacity) (hshrunk : y.capacity < x.capacity) :
    y.size < y.capacity := by
  obtain ⟨-, hsparse, hnext⟩ := h.of_lowered hshrunk
  exact (Policy.hasBand_iff hcapacity).mp hband _ _ hsparse hnext

/-- Where there is room, nothing grows. -/
theorem of_room (h : Step p x y) (hroom : x.size < x.capacity) :
    y.capacity ≤ x.capacity ∧ (x.size < y.size → y.reallocations = x.reallocations) := by
  cases h with
  | still | added | removed => exact ⟨le_rfl, fun _ => rfl⟩
  | grown => exact absurd hroom (Nat.lt_irrefl _)
  | @shrunk size _ _ _ _ hnext =>
      obtain ⟨-, hlt⟩ := Policy.shrunk?_eq_some_iff.mp hnext
      exact ⟨hlt.le, fun hmore => absurd hmore (Nat.lt_succ_self size).not_gt⟩

/-- What has grown is a step up from a full array. -/
theorem grown_iff (h : Step p x y) (hgrown : x.capacity < y.capacity) :
    y.size = x.capacity + 1 ∧ p.grown? x.capacity = some y.capacity := by
  obtain ⟨hfull, hmore, hnext⟩ := h.of_raised hgrown
  exact ⟨hfull ▸ hmore, hnext⟩

/-- Where the smallest capacity that is shrunk to is less than the size, nothing
shrinks. -/
theorem of_smallest_lt (h : Step p x y) (hcapacity : x.capacity ≤ maxSize)
    (hband : p.HasBand x.capacity) (hsize : p.smallest x.capacity < x.size) :
    x.capacity ≤ y.capacity ∧ (y.size < x.size → y.reallocations = x.reallocations) := by
  cases h with
  | still | added | removed => exact ⟨le_rfl, fun _ => rfl⟩
  | @grown capacity _ _ hnext =>
      exact ⟨(Policy.lt_of_grown? hnext).le,
        fun hless => absurd hless (Nat.lt_succ_self capacity).not_gt⟩
  | shrunk hsparse hnext =>
      exact absurd hnext (hband.stays hcapacity (Nat.le_of_lt_succ hsize) hsparse)

end Gauge.Step

namespace DynArray

variable {α : Type} [Element α]

theorem run_moved {operations : List (Place × Allocator × Command α)} {place : Place}
    {memory : Allocator} {command : Command α} (h : command.IsSingle) {a b : DynArray α}
    (ha : a ∈ (Workspace.vacant.runEach Command.effect operations).2.get place)
    (hb : b ∈ (Workspace.vacant.runEach Command.effect
      (operations ++ [(place, memory, command)])).2.get place) :
    Moved a b := by
  have hafter : ((Workspace.vacant.runEach Command.effect operations).2.get place).map
      (command.effect memory).after = some b := by
    rw [← Workspace.get_perform (command.isWork h memory)]
    rwa [Workspace.runEach_concat] at hb
  rw [Option.mem_def.mp ha, Option.map_some, Option.some_inj] at hafter
  exact hafter ▸ Command.moved h memory a

/-- Two operations on single elements, one after the other, in an array that a run leaves
behind.  What the first one has shrunk has room for the second one, if there is a band;
there is one exactly if whatever the capacity is shrunk to has room.  So it is up to `2^53`
for the standard policy, and for every other one where there are two steps between the
shrink line and the quotient by the growth factor.  What the first one has grown from below
`2^53` is above the shrink line, and the second one does not shrink it, if there is a band at
the new capacity and sizes are exact up to there. -/
theorem run_stays_in_band (operations : List (Place × Allocator × Command α))
    (place : Place) (memory memory' : Allocator) (command next : Command α)
    (hcommand : command.IsSingle) (hnext : next.IsSingle) (a b c : DynArray α)
    (ha : a ∈ (Workspace.vacant.runEach Command.effect operations).2.get place)
    (hb : b ∈ (Workspace.vacant.runEach Command.effect
      (operations ++ [(place, memory, command)])).2.get place)
    (hc : c ∈ (Workspace.vacant.runEach Command.effect
      (operations ++ [(place, memory, command)] ++ [(place, memory', next)])).2.get place) :
    b.policy = a.policy ∧
      (a.policy.HasBand a.capacity ↔ ∀ size target,
        a.policy.shouldShrink size a.capacity = true →
          a.policy.shrunk? a.capacity size = some target → size < target) ∧
      (∀ capacity : Nat, capacity ≤ 2 ^ 53 → a.policy = .standard ∨
          a.policy.growth * (capacity * a.policy.threshold + 2) ≤ capacity →
        a.policy.HasBand capacity) ∧
      (b.capacity < a.capacity → a.policy.HasBand a.capacity →
        b.size < b.capacity ∧ c.capacity ≤ b.capacity ∧
          (b.size < c.size → c.reallocations = b.reallocations)) ∧
      (a.capacity < b.capacity → a.capacity < 2 ^ 53 →
        b.policy.shouldShrink b.size b.capacity = false) ∧
      (a.capacity < b.capacity → b.capacity ≤ 2 ^ 53 → b.policy.HasBand b.capacity →
        b.capacity ≤ c.capacity ∧ (c.size < b.size → c.reallocations = b.reallocations)) := by
  obtain ⟨hpolicy, hfirst⟩ := run_moved hcommand ha hb
  obtain ⟨-, hsecond⟩ := run_moved hnext hb hc
  have hbounded : a.Bounded := run_bounded operations place a ha
  have hmaxA : a.capacity ≤ maxSize := hbounded.within_limit.trans (slotLimit_le_maxSize _)
  have hmaxB : b.capacity ≤ maxSize :=
    (run_bounded _ place b hb).within_limit.trans (slotLimit_le_maxSize _)
  have hpos : 0 < a.capacity := (one_le_minCapacity a.policy).trans hbounded.above_min
  refine ⟨hpolicy, ?_⟩
  rw [hpolicy] at hsecond ⊢
  simp only [size_eq_length]
  refine ⟨Policy.hasBand_iff hmaxA, ?_, ?_, ?_, ?_⟩
  · rintro capacity hcapacity (hstandard | hwide)
    · exact hstandard ▸ Policy.standard_hasBand hcapacity
    · exact Policy.hasBand_of_wide hcapacity hwide
  · intro hshrunk hband
    have hroom : b.toList.length < b.capacity := hfirst.size_lt hmaxA hband hshrunk
    exact ⟨hroom, hsecond.of_room hroom⟩
  · intro hgrown hsmall
    obtain ⟨hsize, hstep⟩ := hfirst.grown_iff hgrown
    have hlength : b.toList.length = a.capacity + 1 := hsize
    rw [hlength]
    exact Policy.shouldShrink_grown hpos hbounded.above_min hsmall hstep hmaxB
  · intro hgrown hsmall hband
    obtain ⟨hsize, hstep⟩ := hfirst.grown_iff hgrown
    have hleast : a.policy.smallest b.capacity ≤ a.capacity :=
      Policy.smallest_grown_le hpos hbounded.above_min hstep hsmall
    refine hsecond.of_smallest_lt hmaxB hband ?_
    rw [hsize]
    exact Nat.lt_succ_of_le hleast

namespace HysteresisWitness

/-- Grow by one half, shrink at a quarter, never below two. -/
def byHalf : Policy.Parameters := ⟨⟨0x3ff8000000000000⟩, ⟨0x3fd0000000000000⟩, 2⟩

/-- Three elements where there is room for eight. -/
def sparse : List (Place × Allocator × Command UInt8) :=
  [(.first, .addressSpace, .ofParameters byHalf), (.first, .addressSpace, .reserve 8),
    (.first, .exhausted, .pushBack 1), (.first, .exhausted, .pushBack 2),
    (.first, .exhausted, .pushBack 3)]

/-- What these operations leave after others, while there is memory. -/
def left (operations : List (Place × Allocator × Command UInt8))
    (later : List (Command UInt8)) : Option (DynArray UInt8) :=
  (Workspace.vacant.runEach Command.effect
    (operations ++ later.map fun command => (.first, .addressSpace, command))).2.first

/-- The numbers of what is left. -/
def numbers (operations : List (Place × Allocator × Command UInt8))
    (later : List (Command UInt8)) : Option (Nat × Nat × Nat) :=
  (left operations later).map fun a => (a.size, a.capacity, a.reallocations)

/-- A removal shrinks from eight to five, and the two elements left have room. -/
theorem run_stays_in_band_shrunk :
    ∃ a b c, a ∈ left sparse [] ∧ b ∈ left sparse [.popBack] ∧
      c ∈ left sparse [.popBack, .pushBack 4] ∧ a.capacity = 8 ∧
      b.capacity = 5 ∧ a.policy.HasBand a.capacity ∧ b.size < b.capacity ∧
      c.capacity ≤ b.capacity ∧ c.reallocations = b.reallocations := by
  have hwide : ∀ a ∈ left sparse [],
      a.policy.growth * (a.capacity * a.policy.threshold + 2) ≤ a.capacity := by decide +kernel
  have hbefore : numbers sparse [] = some (3, 8, 2) := by decide +kernel
  have hshrunk : numbers sparse [.popBack] = some (2, 5, 3) := by decide +kernel
  have hfilled : numbers sparse [.popBack, .pushBack 4] = some (3, 5, 3) := by decide +kernel
  simp only [numbers, Option.map_eq_some_iff, Prod.mk.injEq] at hbefore hshrunk hfilled
  obtain ⟨a, ha, -, hcapacityA, -⟩ := hbefore
  obtain ⟨b, hb, hsizeB, hcapacityB, -⟩ := hshrunk
  obtain ⟨c, hc, hsizeC, -⟩ := hfilled
  obtain ⟨-, -, hbands, hroomy, -⟩ := run_stays_in_band sparse .first .addressSpace
    .addressSpace .popBack (.pushBack 4) trivial trivial a b c ha hb hc
  have hband : a.policy.HasBand a.capacity :=
    hbands a.capacity (by omega) (.inr (hwide a ha))
  obtain ⟨hroom, hsame, hcount⟩ := hroomy (by omega) hband
  exact ⟨a, b, c, ha, hb, hc, hcapacityA, hcapacityB, hband, hroom, hsame, hcount (by omega)⟩

/-- Grow by one half and shrink at 0.66, never below one: the product is below one, and
there is no band at a capacity of two. -/
def narrow : Policy.Parameters := ⟨⟨0x3ff8000000000000⟩, ⟨0x3fe51eb851eb851f⟩, 1⟩

def full : List (Place × Allocator × Command UInt8) :=
  [(.first, .addressSpace, .ofParameters narrow), (.first, .addressSpace, .pushBack 1),
    (.first, .addressSpace, .pushBack 2)]

/-- Every removal shrinks to a full array, and every addition grows it again. -/
theorem narrow_leaves_band :
    (Policy.ofParameters narrow).isOk = true ∧ numbers full [] = some (2, 2, 2) ∧
      numbers full [.popBack] = some (1, 1, 3) ∧
      numbers full [.popBack, .pushBack 3] = some (2, 2, 4) ∧
      numbers full [.popBack, .pushBack 3, .popBack] = some (1, 1, 5) := by
  decide +kernel

end HysteresisWitness

end DynArray

end Containers
