/-
What a policy computes, in exact numbers that are rounded once.  The numbers of a
policy without a fault are finite, and the products and quotients that it forms of
sizes stay in range.
-/
import Containers.Policy
import Containers.Proofs.NearestValue

namespace Containers

theorem le_maxSize_of_le_two_pow {n : Nat} (h : n ≤ 2 ^ 53) : n ≤ maxSize :=
  h.trans (by norm_num [maxSize])

namespace Binary64

/-! ### In range -/

/-- Half of the number from which on a result is infinite. -/
theorem representable_half_range : Representable (2 ^ (1023 : Int)) :=
  ⟨1, 1023, by norm_num, by norm_num, by simp⟩

theorem nearest_lt_twoPow {x : Rat} (hx : 0 ≤ x) (h : x ≤ 2 ^ (1023 : Int)) :
    nearest x < twoPow 1024 := by
  rw [twoPow_eq_zpow]
  exact (nearest_le_of_le hx representable_half_range h).trans_lt
    (zpow_lt_zpow_right₀ one_lt_two (by norm_num))

theorem neg_twoPow_lt_nearest {x : Rat} (hx : 0 ≤ x) : -twoPow 1024 < nearest x := by
  have hpos : (0 : Rat) < 2 ^ (1024 : Int) := by positivity
  rw [twoPow_eq_zpow]
  exact (neg_neg_of_pos hpos).trans_le (nearest_nonneg hx)

/-- A pattern that denotes a number denotes one that needs no rounding. -/
theorem representable_of_value {x : Binary64} {q : Rat} (h : x.value = .finite q)
    (hq : 0 ≤ q) : Representable q := by
  have hfraction : x.fraction < 2 ^ 52 := Nat.mod_lt _ (by norm_num)
  rw [value] at h
  split_ifs at h
  rw [Value.finite.injEq] at h
  rw [← h] at hq ⊢
  have hsize : ∃ size, Representable size ∧
      ofParts x.isNegative x.biasedExponent x.fraction = if x.isNegative then -size else size := by
    refine ⟨_, ?_, rfl⟩
    rw [scaled_eq_mul_zpow, scaled_eq_mul_zpow]
    split_ifs with hexponent
    · exact ⟨x.fraction, -1074, by omega, le_rfl, rfl⟩
    · exact ⟨4503599627370496 + x.fraction, _, by omega, by omega, rfl⟩
  obtain ⟨size, hsize, heq⟩ := hsize
  rw [heq] at hq ⊢
  split_ifs at hq ⊢
  · have hzero : size = 0 := le_antisymm (by linarith) hsize.nonneg
    rw [hzero, neg_zero]
    exact representable_natCast (n := 0) (by norm_num)
  · exact hsize

namespace Value

theorem round_eq_finite {x : Rat} (hx : 0 ≤ x) (h : x ≤ 2 ^ (1023 : Int)) :
    round x = finite (nearest x) := by
  rw [round, if_pos ⟨neg_twoPow_lt_nearest hx, nearest_lt_twoPow hx h⟩]

theorem round_cases {x : Rat} (hx : 0 ≤ x) :
    round x = finite (nearest x) ∨ round x = infinite false := by
  rw [round]
  split_ifs
  · exact Or.inl rfl
  · exact Or.inr (by simp [hx])

theorem natCast_le_two_pow {n : Nat} (h : n ≤ maxSize) : (n : Rat) ≤ 2 ^ 64 := by
  have hle : n ≤ 2 ^ 64 := h.trans (by norm_num [maxSize])
  exact_mod_cast hle

theorem two_pow_le_half_range : (2 : Rat) ^ 64 ≤ 2 ^ (1023 : Int) := by
  rw [← zpow_natCast]
  exact zpow_le_zpow_right₀ one_le_two (by norm_num)

theorem representable_two_pow : Representable (2 ^ 64) :=
  ⟨1, 64, by norm_num, by norm_num, by norm_num⟩

theorem nearest_natCast_le {n : Nat} (h : n ≤ maxSize) : nearest n ≤ 2 ^ 64 :=
  nearest_le_of_le (Nat.cast_nonneg n) representable_two_pow (natCast_le_two_pow h)

/-- A size is rounded to a closest value. -/
theorem ofNat_eq_finite {n : Nat} (h : n ≤ maxSize) : ofNat n = finite (nearest n) := by
  rw [ofNat_eq_round]
  exact round_eq_finite (Nat.cast_nonneg n)
    ((natCast_le_two_pow h).trans two_pow_le_half_range)

/-- Sizes up to the integer part of a number are those up to the number. -/
theorem le_toSize_iff {n : Nat} (hn : n ≤ maxSize) {x : Rat} (hx : 0 ≤ x) :
    n ≤ (finite x).toSize ↔ (n : Rat) ≤ x := by
  have hfloor : 0 ≤ x.floor := Rat.le_floor_iff.mpr (by simpa using hx)
  have hwhole : n ≤ x.floor.toNat ↔ (n : Rat) ≤ x := by
    rw [Int.le_toNat hfloor, Rat.le_floor_iff, Int.cast_natCast]
  rw [toSize, le_min_iff, hwhole]
  exact and_iff_right hn

theorem toSize_le (v : Value) : v.toSize ≤ maxSize := by
  cases v with
  | nan => exact Nat.zero_le _
  | infinite negative => cases negative <;> simp [toSize]
  | finite x => exact min_le_left _ _

end Value

end Binary64

namespace Policy

open Binary64

/-! ### The numbers of a policy -/

/-- The shrink threshold as an exact number. -/
def threshold (p : Policy) : Rat := p.shrinkThreshold.toRat?.getD 0

theorem growth_spec (p : Policy) : p.growthFactor.value = .finite p.growth ∧ 1 < p.growth := by
  have hfaultless := p.faultless
  simp only [fault?] at hfaultless
  split_ifs at hfaultless with hgrowth
  cases hvalue : p.growthFactor.value with
  | finite g => simpa [growsBy, hvalue, growth, toRat?] using hgrowth
  | _ => simp [growsBy, hvalue] at hgrowth

theorem threshold_spec (p : Policy) :
    p.shrinkThreshold.value = .finite p.threshold ∧ 0 < p.threshold ∧
      nearest (p.threshold * p.growth) < 1 := by
  obtain ⟨hgrowth, hone⟩ := p.growth_spec
  have hfaultless := p.faultless
  simp only [fault?, hgrowth] at hfaultless
  split_ifs at hfaultless with _ hpositive hproduct
  cases hvalue : p.shrinkThreshold.value with
  | nan => simp [Value.lt, hvalue] at hpositive
  | infinite negative =>
      have hsign : decide (p.growth < 0) = false := by simpa using hone.le.trans' zero_le_one
      have hne : p.growth ≠ 0 := by linarith
      cases negative <;>
        simp [Value.lt, Value.le, Value.mul, hvalue, hsign, hne] at hpositive hproduct
  | finite t =>
      have ht : p.threshold = t := by simp [threshold, toRat?, hvalue]
      rw [ht]
      have hpos : 0 < t := by simpa [Value.lt, hvalue] using hpositive
      refine ⟨rfl, hpos, ?_⟩
      have hnonneg : 0 ≤ t * p.growth := (mul_pos hpos (one_pos.trans hone)).le
      rw [hvalue, Value.mul] at hproduct
      rcases Value.round_cases hnonneg with hround | hround
      · simpa [Value.le, hround] using hproduct
      · simp [Value.le, hround] at hproduct

theorem growth_pos (p : Policy) : 0 < p.growth := one_pos.trans p.growth_spec.2

theorem representable_growth (p : Policy) : Representable p.growth :=
  representable_of_value p.growth_spec.1 p.growth_pos.le

theorem threshold_mul_growth_lt_one (p : Policy) : p.threshold * p.growth < 1 := by
  by_contra hnot
  exact (le_nearest_of_le representable_one (not_lt.mp hnot)).not_gt p.threshold_spec.2.2

/-- The product is rounded before it is compared, so it is off from one by half of the
last digit. -/
theorem threshold_mul_growth_le (p : Policy) :
    p.threshold * p.growth ≤ 1 - 2 ^ (-54 : Int) := by
  have hless := p.threshold_mul_growth_lt_one
  have hnonneg : 0 ≤ p.threshold * p.growth := (mul_pos p.threshold_spec.2.1 p.growth_pos).le
  have hlast := le_of_lt_one (representable_nearest hnonneg) p.threshold_spec.2.2
  have hclosest := nearest_closest hnonneg representable_one
  rw [abs_of_neg (sub_neg.mpr hless)] at hclosest
  have habove := (abs_le.mp hclosest).2
  norm_num at hlast ⊢
  linarith

/-- What is multiplied by the threshold comes to less than what is divided by the
growth factor. -/
theorem mul_threshold_le_div_growth (p : Policy) {x : Rat} (hx : 0 ≤ x) :
    x * p.threshold ≤ x / p.growth := by
  rw [le_div_iff₀ p.growth_pos, mul_assoc]
  exact mul_le_of_le_one_right hx p.threshold_mul_growth_lt_one.le

/-! ### The shrink line -/

theorem shouldShrink_iff {p : Policy} {size capacity : Nat} (hsize : size ≤ maxSize)
    (hcapacity : capacity ≤ maxSize) :
    p.shouldShrink size capacity = true ↔
      nearest size ≤ nearest (nearest capacity * p.threshold) := by
  have hnonneg : 0 ≤ nearest capacity := nearest_nonneg (Nat.cast_nonneg capacity)
  obtain ⟨hvalue, hpos, -⟩ := p.threshold_spec
  have hbound : nearest capacity * p.threshold ≤ 2 ^ (1023 : Int) :=
    calc nearest capacity * p.threshold ≤ nearest capacity / p.growth :=
          p.mul_threshold_le_div_growth hnonneg
      _ ≤ nearest capacity := div_le_self hnonneg p.growth_spec.2.le
      _ ≤ 2 ^ 64 := Value.nearest_natCast_le hcapacity
      _ ≤ 2 ^ (1023 : Int) := Value.two_pow_le_half_range
  rw [shouldShrink, Value.ofNat_eq_finite hsize, Value.ofNat_eq_finite hcapacity, hvalue, Value.mul,
    Value.round_eq_finite (mul_nonneg hnonneg hpos.le) hbound, Value.le, decide_eq_true_iff]

/-- A smaller size is below the line, too. -/
theorem shouldShrink_of_le {p : Policy} {small large capacity : Nat} (h : small ≤ large)
    (hlarge : large ≤ maxSize) (hcapacity : capacity ≤ maxSize)
    (hshrink : p.shouldShrink large capacity = true) : p.shouldShrink small capacity = true := by
  rw [shouldShrink_iff hlarge hcapacity] at hshrink
  rw [shouldShrink_iff (h.trans hlarge) hcapacity]
  exact (nearest_mono (Nat.cast_nonneg small) (by exact_mod_cast h)).trans hshrink

/-! ### Shrinking -/

/-- The smallest capacity that is shrunk to from this one, whatever the size is. -/
def smallest (p : Policy) (capacity : Nat) : Nat :=
  max ((Value.ofNat capacity).divideBy p.growth).toSize p.minCapacity

theorem shrunk?_eq_some_iff {p : Policy} {capacity size target : Nat} :
    p.shrunk? capacity size = some target ↔
      target = max (p.smallest capacity) size ∧ target < capacity := by
  simp only [shrunk?, smallest]
  split_ifs <;> simp <;> omega

theorem smallest_eq {p : Policy} {capacity : Nat} (h : capacity ≤ maxSize) :
    p.smallest capacity =
      max (Value.finite (nearest (nearest capacity / p.growth))).toSize p.minCapacity := by
  have hnonneg : 0 ≤ nearest capacity := nearest_nonneg (Nat.cast_nonneg capacity)
  rw [smallest, Value.ofNat_eq_finite h, Value.divideBy,
    Value.round_eq_finite (div_nonneg hnonneg p.growth_pos.le)]
  calc nearest capacity / p.growth ≤ nearest capacity := div_le_self hnonneg p.growth_spec.2.le
    _ ≤ 2 ^ 64 := Value.nearest_natCast_le h
    _ ≤ 2 ^ (1023 : Int) := Value.two_pow_le_half_range

/-! ### Growing -/

/-- A number that needs no rounding is rounded up to an integer; past `2^53` it is one
already, so the test for a fraction is not misled. -/
theorem roundedUp?_eq_some {x : Rat} (hx : Representable x) (hlt : x < 2 ^ 64) {n : Nat}
    (h : roundedUp? (.finite x) = some n) : x ≤ n ∧ (n : Rat) < x + 1 := by
  simp only [roundedUp?] at h
  generalize hwhole : (Value.finite x).toSize = whole at h
  have hle : whole ≤ maxSize := hwhole ▸ Value.toSize_le _
  have hlow : (whole : Rat) ≤ x := (Value.le_toSize_iff hle hx.nonneg).mp hwhole.ge
  have hhigh : x < whole + 1 := by
    by_contra hnot
    have hnext : ((whole + 1 : Nat) : Rat) ≤ x := by
      push_cast
      exact not_lt.mp hnot
    have hsize : whole + 1 ≤ maxSize := by
      have hrange : ((whole + 1 : Nat) : Rat) < (2 ^ 64 : Nat) := by
        push_cast at hnext ⊢
        linarith
      have hrange' : whole + 1 < 2 ^ 64 := by exact_mod_cast hrange
      exact Nat.le_of_lt_succ hrange'
    have hmore := (Value.le_toSize_iff hsize hx.nonneg).mpr hnext
    omega
  rw [Value.ofNat_eq_finite hle, Value.lt] at h
  split_ifs at h with hfraction
  · obtain ⟨rfl, -⟩ := sizeSum?_eq_some_iff.mp h
    have hne : (whole : Rat) ≠ x := by
      rintro rfl
      simp [nearest_of_representable hx] at hfraction
    have hless : (whole : Rat) < x := lt_of_le_of_ne hlow hne
    push_cast
    constructor <;> linarith
  · obtain rfl := Option.some.inj h
    refine ⟨?_, by linarith⟩
    rcases le_or_gt whole (2 ^ 53) with hsmall | hlarge
    · rw [nearest_natCast_of_le hsmall] at hfraction
      simpa using hfraction
    · have hbig : (2 : Rat) ^ 53 ≤ x := by
        have hcast : ((2 ^ 53 : Nat) : Rat) ≤ whole := by exact_mod_cast hlarge.le
        push_cast at hcast
        linarith
      obtain ⟨m, rfl⟩ := exists_natCast_eq hx hbig
      have hm : m < whole + 1 := by exact_mod_cast hhigh
      exact_mod_cast Nat.le_of_lt_succ hm

theorem roundedUp?_le_maxSize {x : Value} {n : Nat} (h : roundedUp? x = some n) :
    n ≤ maxSize := by
  unfold roundedUp? at h
  dsimp only at h
  split at h
  · exact (sizeSum?_eq_some_iff.mp h).1 ▸ (sizeSum?_eq_some_iff.mp h).2
  · exact Option.some.inj h ▸ Value.toSize_le x

/-- A step up leads to a size, unless it leads to the minimum. -/
theorem grown?_le {p : Policy} {capacity target : Nat} (h : p.grown? capacity = some target) :
    target ≤ max maxSize p.minCapacity := by
  unfold grown? at h
  dsimp only at h
  split at h
  · split at h
    · rename_i hup hnext
      have hrounded := roundedUp?_le_maxSize hup
      have hsize := (sizeSum?_eq_some_iff.mp hnext).2
      have hsum := (sizeSum?_eq_some_iff.mp hnext).1
      rw [Option.some.injEq] at h
      omega
    · contradiction
  · contradiction

/-- A step up goes to the product of the rounded capacity with the growth factor, rounded
and then rounded up, unless it has to be more. -/
theorem grown?_eq_some_nearest {p : Policy} {capacity target : Nat} (hcapacity : capacity ≤ maxSize)
    (h : p.grown? capacity = some target) :
    ∃ n : Nat, target = max (max n (capacity + 1)) p.minCapacity ∧
      nearest (nearest capacity * p.growth) ≤ n ∧
      (n : Rat) < nearest (nearest capacity * p.growth) + 1 := by
  have hnonneg : 0 ≤ nearest capacity * p.growth :=
    mul_nonneg (nearest_nonneg (Nat.cast_nonneg capacity)) p.growth_pos.le
  simp only [grown?, p.growth_spec.1, Value.ofNat_eq_finite hcapacity,
    Value.ofNat_eq_finite le_rfl, Value.mul] at h
  rcases Value.round_cases hnonneg with hround | hround
  · rw [hround] at h
    split_ifs at h with hrange
    have hlt : nearest (nearest capacity * p.growth) < 2 ^ 64 :=
      (of_decide_eq_true hrange).trans_le (Value.nearest_natCast_le le_rfl)
    split at h
    · rename_i n next hup hnext
      obtain ⟨rfl, -⟩ := sizeSum?_eq_some_iff.mp hnext
      obtain ⟨hlow, hhigh⟩ := roundedUp?_eq_some (representable_nearest hnonneg) hlt hup
      exact ⟨n, (Option.some.inj h).symm, hlow, hhigh⟩
    · contradiction
  · rw [hround] at h
    contradiction

/-- Up to `2^53` only the product is rounded. -/
theorem grown?_eq_some {p : Policy} {capacity target : Nat} (hcapacity : capacity ≤ 2 ^ 53)
    (h : p.grown? capacity = some target) :
    ∃ n : Nat, target = max (max n (capacity + 1)) p.minCapacity ∧
      nearest (capacity * p.growth) ≤ n ∧ (n : Rat) < nearest (capacity * p.growth) + 1 := by
  have hgrown := grown?_eq_some_nearest (le_maxSize_of_le_two_pow hcapacity) h
  rwa [nearest_natCast_of_le hcapacity] at hgrown

/-! ### The standard policy -/

theorem standard_growth : standard.growth = 2 := by decide +kernel

theorem standard_threshold : standard.threshold = 1 / 4 := by decide +kernel

/-- Sizes up to `2^53` are exact, and so are their quarters. -/
theorem standard_shouldShrink_iff {size capacity : Nat} (hsize : size ≤ 2 ^ 53)
    (hcapacity : capacity ≤ 2 ^ 53) :
    standard.shouldShrink size capacity = true ↔ 4 * size ≤ capacity := by
  have hquarter : Representable ((capacity : Rat) * (1 / 4)) :=
    ⟨capacity, -2, hcapacity, by norm_num, by norm_num⟩
  rw [shouldShrink_iff (le_maxSize_of_le_two_pow hsize) (le_maxSize_of_le_two_pow hcapacity),
    standard_threshold, nearest_natCast_of_le hsize, nearest_natCast_of_le hcapacity,
    nearest_of_representable hquarter, mul_one_div, le_div_iff₀ (by norm_num), mul_comm]
  exact_mod_cast Iff.rfl

/-- If a capacity is exact, then so is its half. -/
theorem standard_smallest_of_representable {capacity : Nat}
    (hexact : Representable (capacity : Rat)) (hmax : capacity ≤ maxSize) :
    standard.smallest capacity = max (capacity / 2) 4 := by
  have hhalf : Representable ((capacity : Rat) / 2) := by
    rcases Nat.eq_zero_or_pos capacity with rfl | hpos
    · simpa using hexact
    · exact hexact.half (by exact_mod_cast hpos)
  rw [smallest_eq hmax, standard_growth,
    nearest_of_representable hexact, nearest_of_representable hhalf]
  have hle : ∀ n ≤ maxSize, n ≤ (Value.finite ((capacity : Rat) / 2)).toSize ↔
      n ≤ capacity / 2 := by
    intro n hn
    rw [Value.le_toSize_iff hn hhalf.nonneg, le_div_iff₀ two_pos, Nat.le_div_iff_mul_le two_pos]
    exact_mod_cast Iff.rfl
  have hfloor : (Value.finite ((capacity : Rat) / 2)).toSize = capacity / 2 :=
    le_antisymm ((hle _ (Value.toSize_le _)).mp le_rfl) ((hle _ (by omega)).mpr le_rfl)
  rw [hfloor]
  rfl

theorem standard_smallest {capacity : Nat} (hcapacity : capacity ≤ 2 ^ 53) :
    standard.smallest capacity = max (capacity / 2) 4 :=
  standard_smallest_of_representable (representable_natCast hcapacity)
    (le_maxSize_of_le_two_pow hcapacity)

/-- Sizes are rounded, but their quarters are not rounded again. -/
theorem standard_shouldShrink_iff_nearest {size capacity : Nat} (hsize : size ≤ maxSize)
    (hmin : 4 ≤ capacity) (hcapacity : capacity ≤ maxSize) :
    standard.shouldShrink size capacity = true ↔ 4 * nearest size ≤ nearest capacity := by
  have hfour : (4 : Rat) ≤ nearest capacity := by
    refine le_nearest_of_le (representable_natCast (n := 4) (by norm_num)) ?_
    exact_mod_cast hmin
  have hhalf : Representable (nearest capacity / 2) :=
    (representable_nearest (Nat.cast_nonneg capacity)).half (by linarith)
  have hquarter : Representable (nearest capacity * (1 / 4)) := by
    convert hhalf.half (by linarith) using 1
    ring
  rw [shouldShrink_iff hsize hcapacity, standard_threshold, nearest_of_representable hquarter,
    mul_one_div, le_div_iff₀ (by norm_num), mul_comm]

/-- The capacity is rounded, but its double is not rounded again. -/
theorem standard_grown?_eq_some_nearest {capacity target : Nat} (hmin : 4 ≤ capacity)
    (hcapacity : capacity ≤ maxSize) (h : standard.grown? capacity = some target) :
    (target : Rat) = 2 * nearest capacity := by
  have hdouble : Representable (nearest capacity * 2) :=
    (representable_nearest (Nat.cast_nonneg capacity)).double
  have hmore : (capacity : Rat) < 2 * nearest capacity := lt_two_mul_nearest (by omega)
  obtain ⟨n, heq, hlow, hhigh⟩ := grown?_eq_some_nearest hcapacity h
  obtain ⟨m, hm⟩ := exists_nearest_natCast_eq capacity
  rw [standard_growth, nearest_of_representable hdouble, hm] at hlow hhigh
  rw [hm] at hmore ⊢
  have hlow' : m * 2 ≤ n := by exact_mod_cast hlow
  have hhigh' : n < m * 2 + 1 := by exact_mod_cast hhigh
  have hmore' : capacity < 2 * m := by exact_mod_cast hmore
  have hleast : standard.minCapacity = 4 := rfl
  have htarget : target = 2 * m := by omega
  exact_mod_cast htarget

theorem standard_grown?_eq_some {capacity target : Nat} (hmin : 4 ≤ capacity)
    (hcapacity : capacity ≤ 2 ^ 53) (h : standard.grown? capacity = some target) :
    target = 2 * capacity := by
  have hgrown := standard_grown?_eq_some_nearest hmin (le_maxSize_of_le_two_pow hcapacity) h
  rw [nearest_natCast_of_le hcapacity] at hgrown
  exact_mod_cast hgrown

/-! ### Powers of two -/

theorem representable_four_mul_two_pow (k : Nat) : Representable ((4 * 2 ^ k : Nat) : Rat) :=
  ⟨4, k, by norm_num, by omega, by norm_num⟩

/-- A power of two is doubled exactly, however large it is. -/
theorem standard_grown?_double {k next : Nat} (hmax : 4 * 2 ^ k ≤ maxSize)
    (h : standard.grown? (4 * 2 ^ k) = some next) : next = 4 * 2 ^ (k + 1) := by
  have hpos : 0 < 2 ^ k := Nat.two_pow_pos k
  have hdouble := standard_grown?_eq_some_nearest (by omega) hmax h
  rw [nearest_of_representable (representable_four_mul_two_pow k)] at hdouble
  have hnext : next = 2 * (4 * 2 ^ k) := by exact_mod_cast hdouble
  rw [hnext, pow_succ]
  ring

/-- It is halved exactly, too. -/
theorem standard_smallest_double {k : Nat} (hmax : 4 * 2 ^ k ≤ maxSize) :
    standard.smallest (4 * 2 ^ k) = max (2 * 2 ^ k) 4 := by
  rw [standard_smallest_of_representable (representable_four_mul_two_pow k) hmax]
  omega

/-- No array of such a capacity is sparse while more than half of it is in use: the size is
rounded, but not to less than its own half. -/
theorem standard_sparse_double {k size : Nat} (hmax : 4 * 2 ^ k ≤ maxSize)
    (hsize : size ≤ maxSize) (h : standard.shouldShrink size (4 * 2 ^ k) = true) :
    size ≤ 2 * 2 ^ k := by
  rcases Nat.eq_zero_or_pos size with rfl | hpos
  · exact Nat.zero_le _
  · have hpower : 0 < 2 ^ k := Nat.two_pow_pos k
    rw [standard_shouldShrink_iff_nearest hsize (by omega) hmax,
      nearest_of_representable (representable_four_mul_two_pow k)] at h
    have hrounded : (size : Rat) < 2 * nearest size := lt_two_mul_nearest hpos
    have hless : (size : Rat) < (2 * 2 ^ k : Nat) := by
      push_cast at h ⊢
      linarith
    exact_mod_cast hless.le

end Policy

end Containers
