/-
Rounding delivers a closest number of 53 significant binary digits.  What is needed of
rounding follows from this: it leaves such numbers as they are, it keeps the order,
and it only reaches such a number from beyond half of the gap below it.
-/
import Containers.Binary64.Basic
import Mathlib.Algebra.Order.Field.Power
import Mathlib.Algebra.Order.Floor.Semiring
import Mathlib.Data.Nat.Log
import Mathlib.Data.Rat.Cast.Order
import Mathlib.Data.Rat.Floor
import Mathlib.Tactic.FieldSimp
import Mathlib.Tactic.GCongr
import Mathlib.Tactic.Linarith
import Mathlib.Tactic.NormNum
import Mathlib.Tactic.Positivity
import Mathlib.Tactic.Ring

namespace Containers

namespace Binary64

/-! ### Multiples of powers of two -/

theorem scaled_eq_mul_zpow (n : Nat) (e : Int) : scaled n e = n * (2 : Rat) ^ e := by
  rw [scaled, Rat.mkRat_eq_div]
  obtain ⟨k, rfl | rfl⟩ := e.eq_nat_or_neg
  · simp [Nat.shiftLeft_eq]
  · simp [Nat.shiftLeft_eq, div_eq_mul_inv]

theorem twoPow_eq_zpow (e : Int) : twoPow e = (2 : Rat) ^ e := by
  rw [twoPow, scaled_eq_mul_zpow, Nat.cast_one, one_mul]

/-- Zero and the positive numbers that have at most 53 significant binary digits and no
digit below `2^(-1074)`. -/
def Representable (x : Rat) : Prop :=
  ∃ (n : Nat) (e : Int), n ≤ 2 ^ 53 ∧ -1074 ≤ e ∧ x = n * 2 ^ e

theorem Representable.nonneg {x : Rat} (h : Representable x) : 0 ≤ x := by
  obtain ⟨n, e, -, -, rfl⟩ := h
  positivity

theorem representable_natCast {n : Nat} (h : n ≤ 2 ^ 53) : Representable n :=
  ⟨n, 0, h, by decide, by simp⟩

theorem representable_one : Representable 1 := by
  simpa using representable_natCast (n := 1) (by norm_num)

/-- A number on a grid is a multiple on every finer grid. -/
theorem exists_multiple (n : Nat) {fine coarse : Int} (h : fine ≤ coarse) :
    ∃ m : Nat, (n : Rat) * 2 ^ coarse = m * 2 ^ fine := by
  obtain ⟨k, hk⟩ := Int.le.dest h
  refine ⟨n * 2 ^ k, ?_⟩
  rw [← hk, zpow_add₀ two_ne_zero, zpow_natCast]
  push_cast
  ring

/-- On a finer grid, 53 digits do not reach further than 52 on this one. -/
theorem le_of_finer {n : Nat} (hn : n ≤ 2 ^ 53) {fine e : Int} (h : fine < e) :
    (n : Rat) * 2 ^ fine ≤ 2 ^ 52 * 2 ^ e :=
  calc (n : Rat) * 2 ^ fine ≤ 2 ^ 53 * 2 ^ (e - 1) := by
        gcongr
        · exact_mod_cast hn
        · exact one_le_two
        · omega
    _ = 2 ^ 52 * 2 ^ e := by
        rw [zpow_sub_one₀ two_ne_zero]
        ring

theorem Representable.double {x : Rat} (h : Representable x) : Representable (x * 2) := by
  obtain ⟨n, e, hn, he, rfl⟩ := h
  exact ⟨n, e + 1, hn, by omega, by rw [zpow_add_one₀ two_ne_zero, mul_assoc]⟩

/-- The last digit of a number from one on is not the last digit that there is. -/
theorem Representable.half {x : Rat} (h : Representable x) (hx : 1 ≤ x) :
    Representable (x / 2) := by
  obtain ⟨n, e, hn, he, rfl⟩ := h
  refine ⟨n, e - 1, hn, ?_, by rw [zpow_sub_one₀ two_ne_zero, div_eq_mul_inv, mul_assoc]⟩
  by_contra hfine
  have hless : (n : Rat) * 2 ^ e ≤ 2 ^ 52 * 2 ^ (-1073 : Int) := le_of_finer hn (by omega)
  have hsmall : (2 : Rat) ^ 52 * 2 ^ (-1073 : Int) < 1 := by
    rw [← zpow_natCast, ← zpow_add₀ two_ne_zero]
    exact zpow_lt_one_of_neg₀ one_lt_two (by norm_num)
  linarith

/-! ### Rounding to an integer -/

theorem roundHalfEven_cases (num den : Nat) :
    (roundHalfEven num den = num / den ∧ num % den * 2 ≤ den) ∨
      (roundHalfEven num den = num / den + 1 ∧ den ≤ num % den * 2) := by
  simp only [roundHalfEven]
  split_ifs with hlow hhigh heven
  · exact Or.inl ⟨rfl, by omega⟩
  · exact Or.inr ⟨rfl, by omega⟩
  · exact Or.inl ⟨rfl, by omega⟩
  · exact Or.inr ⟨rfl, by omega⟩

/-- A quotient is its integer part and its rest. -/
theorem cast_div_eq (num : Nat) {den : Nat} (hden : 0 < den) :
    (num : Rat) / den = (num / den : Nat) + ((num % den : Nat) : Rat) / den := by
  have hpos : (0 : Rat) < den := by exact_mod_cast hden
  have hsplit : (num : Rat) = den * (num / den : Nat) + (num % den : Nat) := by
    exact_mod_cast (Nat.div_add_mod num den).symm
  rw [hsplit]
  field_simp

theorem roundHalfEven_close (num : Nat) {den : Nat} (hden : 0 < den) :
    |(num : Rat) / den - roundHalfEven num den| ≤ 1 / 2 := by
  have hpos : (0 : Rat) < den := by exact_mod_cast hden
  have hrest : (0 : Rat) ≤ ((num % den : Nat) : Rat) / den := by positivity
  have hless : ((num % den : Nat) : Rat) / den < 1 :=
    (div_lt_one hpos).mpr (by exact_mod_cast Nat.mod_lt num hden)
  rw [cast_div_eq num hden, abs_le]
  rcases roundHalfEven_cases num den with ⟨hround, hhalf⟩ | ⟨hround, hhalf⟩
  · have hbelow : ((num % den : Nat) : Rat) / den ≤ 1 / 2 := by
      rw [div_le_div_iff₀ hpos two_pos, one_mul]
      exact_mod_cast hhalf
    rw [hround]
    constructor <;> linarith
  · have habove : 1 / 2 ≤ ((num % den : Nat) : Rat) / den := by
      rw [div_le_div_iff₀ two_pos hpos, one_mul]
      exact_mod_cast hhalf
    rw [hround, Nat.cast_add_one]
    constructor <;> linarith

/-- Half way between two integers the even one is taken. -/
theorem even_roundHalfEven (num : Nat) {den : Nat} (hden : 0 < den)
    (h : |(num : Rat) / den - roundHalfEven num den| = 1 / 2) : Even (roundHalfEven num den) := by
  have hpos : (0 : Rat) < den := by exact_mod_cast hden
  have hrest : (0 : Rat) ≤ ((num % den : Nat) : Rat) / den := by positivity
  have hless : ((num % den : Nat) : Rat) / den < 1 :=
    (div_lt_one hpos).mpr (by exact_mod_cast Nat.mod_lt num hden)
  have hhalf : 2 * (num % den) = den := by
    have hhalf' : ((num % den : Nat) : Rat) / den = 1 / 2 := by
      rw [cast_div_eq num hden] at h
      rcases roundHalfEven_cases num den with ⟨hround, -⟩ | ⟨hround, -⟩
      · rw [hround, add_sub_cancel_left, abs_of_nonneg hrest] at h
        exact h
      · rw [hround, Nat.cast_add_one, add_sub_add_left_eq_sub, abs_of_neg (by linarith)] at h
        linarith
    rw [div_eq_div_iff hpos.ne' two_ne_zero, one_mul, mul_comm] at hhalf'
    exact_mod_cast hhalf'
  simp only [roundHalfEven, hhalf, lt_irrefl, if_false]
  split_ifs with heven
  · exact Nat.even_iff.mpr heven
  · exact Nat.even_add_one.mpr (fun hlow => heven (Nat.even_iff.mp hlow))

/-- No integer is closer than the one that a number is rounded to. -/
theorem abs_sub_le_of_close {t : Rat} {r : Nat} (h : |t - r| ≤ 1 / 2) (k : Nat) :
    |t - r| ≤ |t - k| := by
  rcases eq_or_ne k r with rfl | hne
  · exact le_rfl
  · have hgap : (1 : Rat) ≤ |(r : Rat) - k| := by
      have hint : (1 : Int) ≤ |(r : Int) - k| := Int.one_le_abs (by omega)
      exact_mod_cast hint
    have htriangle := abs_sub_le (r : Rat) t k
    rw [abs_sub_comm (r : Rat) t] at htriangle
    linarith

/-! ### The grid -/

/-- Where a positive number lies on a grid on which it is rounded: there are fewer than
`2^53` steps up to it, and at least `2^52` unless the grid is the finest one. -/
structure OnGrid (x : Rat) (e : Int) : Prop where
  finest_le : -1074 ≤ e
  upper : x < 2 ^ 53 * 2 ^ e
  lower : e = -1074 ∨ 2 ^ 52 * 2 ^ e ≤ x

/-- The comparison by which the exponent is found. -/
theorem shiftLeft_le_shiftLeft_iff {num den : Nat} (hden : 0 < den) (e : Int) :
    den <<< e.toNat ≤ num <<< (-e).toNat ↔ (2 : Rat) ^ e ≤ num / den := by
  rw [le_div_iff₀ (by exact_mod_cast hden : (0 : Rat) < den)]
  obtain ⟨k, rfl | rfl⟩ := e.eq_nat_or_neg
  · simp only [Int.toNat_natCast, Int.toNat_neg_natCast, Nat.shiftLeft_eq, zpow_natCast, pow_zero,
      mul_one, mul_comm den]
    exact_mod_cast Iff.rfl
  · simp only [neg_neg, Int.toNat_natCast, Int.toNat_neg_natCast, Nat.shiftLeft_eq, zpow_neg,
      zpow_natCast, pow_zero, mul_one]
    rw [inv_mul_le_iff₀ (by positivity), mul_comm ((2 : Rat) ^ k)]
    exact_mod_cast Iff.rfl

theorem binaryExponent_bounds {num den : Nat} (hnum : 0 < num) (hden : 0 < den) :
    (2 : Rat) ^ binaryExponent num den ≤ num / den ∧
      (num : Rat) / den < 2 ^ (binaryExponent num den + 1) := by
  have hden' : (0 : Rat) < den := by exact_mod_cast hden
  have hnumLow : (2 : Rat) ^ (num.log2 : Int) ≤ num := by
    exact_mod_cast Nat.log2_self_le hnum.ne'
  have hnumHigh : (num : Rat) < 2 ^ ((num.log2 : Int) + 1) := by
    exact_mod_cast Nat.lt_log2_self
  have hdenLow : (2 : Rat) ^ (den.log2 : Int) ≤ den := by
    exact_mod_cast Nat.log2_self_le hden.ne'
  have hdenHigh : (den : Rat) < 2 ^ ((den.log2 : Int) + 1) := by
    exact_mod_cast Nat.lt_log2_self
  have hupper : (num : Rat) / den < 2 ^ ((num.log2 : Int) - den.log2 + 1) := by
    rw [div_lt_iff₀ hden', show (num.log2 : Int) - den.log2 + 1 = num.log2 + 1 - den.log2 by ring,
      zpow_sub₀ two_ne_zero, div_mul_eq_mul_div, lt_div_iff₀ (by positivity)]
    exact mul_lt_mul hnumHigh hdenLow (by positivity) (by positivity)
  have hlower : (2 : Rat) ^ ((num.log2 : Int) - den.log2 - 1) < num / den := by
    rw [lt_div_iff₀ hden', show (num.log2 : Int) - den.log2 - 1 = num.log2 - (den.log2 + 1) by ring,
      zpow_sub₀ two_ne_zero, div_mul_eq_mul_div, div_lt_iff₀ (by positivity)]
    exact mul_lt_mul_of_le_of_lt_of_pos_of_nonneg hnumLow hdenHigh (by positivity) (by positivity)
  simp only [binaryExponent]
  split_ifs with hguess
  · exact ⟨(shiftLeft_le_shiftLeft_iff hden _).mp hguess, hupper⟩
  · rw [shiftLeft_le_shiftLeft_iff hden, not_le] at hguess
    refine ⟨hlower.le, ?_⟩
    rwa [sub_add_cancel]

theorem onGrid_gridExponent {x : Rat} (hx : 0 < x) :
    OnGrid x (gridExponent x.num.natAbs x.den) := by
  have hnum : 0 < x.num.natAbs := Int.natAbs_pos.mpr (Rat.num_pos.mpr hx).ne'
  obtain ⟨hlower, hupper⟩ := binaryExponent_bounds hnum x.den_pos
  have hvalue : (x.num.natAbs : Rat) / x.den = x := by
    rw [← Int.cast_natCast, Int.natAbs_of_nonneg (Rat.num_pos.mpr hx).le]
    exact Rat.num_div_den x
  rw [hvalue] at hlower hupper
  simp only [gridExponent]
  split_ifs with hfine
  · refine ⟨le_rfl, hupper.trans_le ?_, Or.inl rfl⟩
    rw [← zpow_natCast, ← zpow_add₀ two_ne_zero]
    exact zpow_le_zpow_right₀ one_le_two (by push_cast; omega)
  · refine ⟨by omega, hupper.trans_le ?_, Or.inr (le_trans ?_ hlower)⟩
    · rw [← zpow_natCast, ← zpow_add₀ two_ne_zero]
      exact zpow_le_zpow_right₀ one_le_two (by push_cast; omega)
    · rw [← zpow_natCast, ← zpow_add₀ two_ne_zero]
      exact zpow_le_zpow_right₀ one_le_two (by push_cast; omega)

/-- A positive number is rounded to a closest multiple on its grid, and to the even one of
two. -/
theorem exists_nearest_eq_even {x : Rat} (hx : 0 < x) :
    ∃ (e : Int) (r : Nat), OnGrid x e ∧ nearest x = r * 2 ^ e ∧ |x / 2 ^ e - r| ≤ 1 / 2 ∧
      (|x / 2 ^ e - r| = 1 / 2 → Even r) := by
  have hgrid := onGrid_gridExponent hx
  generalize he : gridExponent x.num.natAbs x.den = e at hgrid
  refine ⟨e, roundHalfEven (x.num.natAbs <<< (-e).toNat) (x.den <<< e.toNat), hgrid, ?_, ?_⟩
  · simp only [nearest, he, if_neg hx.not_gt, scaled_eq_mul_zpow]
  · have hden : 0 < x.den <<< e.toNat := by
      rw [Nat.shiftLeft_eq]
      exact Nat.mul_pos x.den_pos (Nat.two_pow_pos _)
    have hclose := roundHalfEven_close (x.num.natAbs <<< (-e).toNat) hden
    have htie := even_roundHalfEven (x.num.natAbs <<< (-e).toNat) hden
    have hvalue : ((x.num.natAbs <<< (-e).toNat : Nat) : Rat) / (x.den <<< e.toNat : Nat) =
        x / 2 ^ e := by
      have habs : (x.num.natAbs : Rat) = x.num := by
        rw [← Int.cast_natCast, Int.natAbs_of_nonneg (Rat.num_pos.mpr hx).le]
      have hne : (x.den : Rat) ≠ 0 := by exact_mod_cast x.den_ne_zero
      obtain ⟨k, rfl | rfl⟩ := e.eq_nat_or_neg
      · simp only [Nat.shiftLeft_eq, Int.toNat_natCast, Int.toNat_neg_natCast, zpow_natCast]
        push_cast
        rw [habs, ← Rat.mul_den_eq_num x]
        field_simp
      · simp only [Nat.shiftLeft_eq, neg_neg, Int.toNat_natCast, Int.toNat_neg_natCast, zpow_neg,
          zpow_natCast]
        push_cast
        rw [habs, ← Rat.mul_den_eq_num x]
        field_simp
    rw [hvalue] at hclose htie
    exact ⟨hclose, htie⟩

theorem exists_nearest_eq {x : Rat} (hx : 0 < x) :
    ∃ (e : Int) (r : Nat), OnGrid x e ∧ nearest x = r * 2 ^ e ∧ |x / 2 ^ e - r| ≤ 1 / 2 := by
  obtain ⟨e, r, hgrid, hnearest, hclose, -⟩ := exists_nearest_eq_even hx
  exact ⟨e, r, hgrid, hnearest, hclose⟩

/-! ### Closest numbers -/

theorem nearest_zero : nearest 0 = 0 := nearest_natCast (n := 0) (by decide)

theorem OnGrid.le_of_close {x : Rat} {e : Int} (h : OnGrid x e) {r : Nat}
    (hclose : |x / 2 ^ e - r| ≤ 1 / 2) : r ≤ 2 ^ 53 := by
  have hsteps : x / 2 ^ e < 2 ^ 53 := (div_lt_iff₀ (by positivity)).mpr h.upper
  have hround : (r : Rat) < 2 ^ 53 + 1 := by
    have hlow := (abs_le.mp hclose).1
    linarith
  exact Nat.lt_succ_iff.mp (by exact_mod_cast hround)

theorem representable_nearest {x : Rat} (hx : 0 ≤ x) : Representable (nearest x) := by
  rcases hx.eq_or_lt with rfl | hpos
  · rw [nearest_zero]
    exact representable_natCast (n := 0) (by decide)
  · obtain ⟨e, r, hgrid, hnearest, hclose⟩ := exists_nearest_eq hpos
    exact ⟨r, e, hgrid.le_of_close hclose, hgrid.finest_le, hnearest⟩

theorem abs_sub_mul_eq {x u : Rat} (hu : 0 < u) (k : Rat) : |x - k * u| = |x / u - k| * u := by
  rw [← abs_of_pos hu, ← abs_mul, abs_of_pos hu, sub_mul, div_mul_cancel₀ x hu.ne']

/-- A number on a coarser or the same grid is a multiple on the grid of `x`; one on a
finer grid is at most the first multiple of 53 digits, which is at most `x`. -/
theorem nearest_closest {x f : Rat} (hx : 0 ≤ x) (hf : Representable f) :
    |x - nearest x| ≤ |x - f| := by
  rcases hx.eq_or_lt with rfl | hpos
  · simp [nearest_zero]
  · obtain ⟨e, r, hgrid, hnearest, hclose⟩ := exists_nearest_eq hpos
    have hu : (0 : Rat) < 2 ^ e := by positivity
    have hmultiple : ∀ m : Nat, |x - nearest x| ≤ |x - m * 2 ^ e| := by
      intro m
      rw [hnearest, abs_sub_mul_eq hu, abs_sub_mul_eq hu]
      exact mul_le_mul_of_nonneg_right (abs_sub_le_of_close hclose m) hu.le
    obtain ⟨n, e', hn, he', rfl⟩ := hf
    rcases le_or_gt e e' with hle | hlt
    · obtain ⟨m, hm⟩ := exists_multiple n hle
      rw [hm]
      exact hmultiple m
    · have hfirst : (2 : Rat) ^ 52 * 2 ^ e ≤ x := hgrid.lower.resolve_left (by omega)
      have hfine := le_of_finer hn hlt
      have hcloser := hmultiple (2 ^ 52)
      rw [Nat.cast_pow, Nat.cast_ofNat] at hcloser
      rw [abs_of_nonneg (sub_nonneg.mpr hfirst)] at hcloser
      rw [abs_of_nonneg (sub_nonneg.mpr (hfine.trans hfirst))]
      linarith

theorem nearest_of_representable {f : Rat} (hf : Representable f) : nearest f = f := by
  have hclosest := nearest_closest hf.nonneg hf
  rw [sub_self, abs_zero] at hclosest
  exact (sub_eq_zero.mp (abs_nonpos_iff.mp hclosest)).symm

theorem nearest_natCast_of_le {n : Nat} (h : n ≤ 2 ^ 53) : nearest n = n :=
  nearest_of_representable (representable_natCast h)

/-- Nothing is rounded past a number that needs no rounding. -/
theorem nearest_le_of_le {x f : Rat} (hx : 0 ≤ x) (hf : Representable f) (h : x ≤ f) :
    nearest x ≤ f := by
  have hclosest := nearest_closest hx hf
  rw [abs_of_nonpos (sub_nonpos.mpr h)] at hclosest
  have hbelow := (abs_le.mp hclosest).1
  linarith

theorem le_nearest_of_le {x f : Rat} (hf : Representable f) (h : f ≤ x) : f ≤ nearest x := by
  have hclosest := nearest_closest (hf.nonneg.trans h) hf
  rw [abs_of_nonneg (sub_nonneg.mpr h)] at hclosest
  have habove := (abs_le.mp hclosest).2
  linarith

theorem nearest_nonneg {x : Rat} (hx : 0 ≤ x) : 0 ≤ nearest x := (representable_nearest hx).nonneg

/-- From below the middle between two numbers that need no rounding, the upper one is
not reached. -/
theorem nearest_lt_of_lt_middle {x f g : Rat} (hx : 0 ≤ x) (hf : Representable f) (hfg : f < g)
    (h : x < (f + g) / 2) : nearest x < g := by
  rcases le_or_gt x f with hle | hlt
  · exact (nearest_le_of_le hx hf hle).trans_lt hfg
  · have hclosest := nearest_closest hx hf
    rw [abs_of_pos (sub_pos.mpr hlt)] at hclosest
    have habove := (abs_le.mp hclosest).1
    linarith

theorem nearest_mono {x y : Rat} (hx : 0 ≤ x) (h : x ≤ y) : nearest x ≤ nearest y := by
  have hy : 0 ≤ y := hx.trans h
  rcases le_or_gt x (nearest y) with hxy | hyx
  · exact nearest_le_of_le hx (representable_nearest hy) hxy
  · rcases le_or_gt (nearest x) y with hxy | hyx'
    · exact le_nearest_of_le (representable_nearest hx) hxy
    · -- Both are on the wrong side of the other number, so the two numbers are one.
      have hcloseX := nearest_closest hx (representable_nearest hy)
      have hcloseY := nearest_closest hy (representable_nearest hx)
      rw [abs_of_nonpos (by linarith), abs_of_pos (by linarith)] at hcloseX
      rw [abs_of_nonneg (by linarith), abs_of_nonpos (by linarith)] at hcloseY
      have hsame : x = y := by linarith
      rw [hsame]

/-- Rounding adds no more than half of the last of 53 digits. -/
theorem nearest_le_add {x : Rat} (hx : 1 ≤ x) : nearest x ≤ x + x * 2 ^ (-53 : Int) := by
  obtain ⟨e, r, hgrid, hnearest, hclose⟩ := exists_nearest_eq (one_pos.trans_le hx)
  have hu : (0 : Rat) < 2 ^ e := by positivity
  have hlower : 2 ^ 52 * (2 : Rat) ^ e ≤ x := by
    refine hgrid.lower.resolve_left ?_
    rintro rfl
    have hsmall : (2 : Rat) ^ 53 * 2 ^ (-1074 : Int) < 1 := by
      rw [← zpow_natCast, ← zpow_add₀ two_ne_zero]
      exact zpow_lt_one_of_neg₀ one_lt_two (by norm_num)
    exact (hgrid.upper.trans hsmall).not_ge hx
  have hsteps : (r : Rat) ≤ x / 2 ^ e + 1 / 2 := by
    have hlow := (abs_le.mp hclose).1
    linarith
  calc nearest x = r * 2 ^ e := hnearest
    _ ≤ (x / 2 ^ e + 1 / 2) * 2 ^ e := mul_le_mul_of_nonneg_right hsteps hu.le
    _ = x + 2 ^ 52 * 2 ^ e * 2 ^ (-53 : Int) := by
        rw [add_mul, div_mul_cancel₀ x hu.ne']
        norm_num
        ring
    _ ≤ x + x * 2 ^ (-53 : Int) := by gcongr

/-- Up to `2^53` there are all integers, so rounding changes a number by at most one half. -/
theorem abs_sub_nearest_le {x : Rat} (hx : 0 ≤ x) (h : x ≤ 2 ^ 53) : |x - nearest x| ≤ 1 / 2 := by
  have hbelow : (⌊x + 1 / 2⌋₊ : Rat) ≤ x + 1 / 2 := Nat.floor_le (by linarith)
  have habove : x + 1 / 2 < ⌊x + 1 / 2⌋₊ + 1 := Nat.lt_floor_add_one _
  have hsmall : ⌊x + 1 / 2⌋₊ ≤ 2 ^ 53 := by
    have hless : (⌊x + 1 / 2⌋₊ : Rat) < 2 ^ 53 + 1 := by linarith
    exact Nat.lt_succ_iff.mp (by exact_mod_cast hless)
  refine (nearest_closest hx (representable_natCast hsmall)).trans (abs_le.mpr ?_)
  constructor <;> linarith

/-! ### Sizes -/

/-- A number from `2^53` on that needs no rounding is an integer. -/
theorem exists_natCast_eq {x : Rat} (h : Representable x) (hx : 2 ^ 53 ≤ x) :
    ∃ n : Nat, x = n := by
  obtain ⟨n, e, hn, -, rfl⟩ := h
  rcases le_or_gt 0 e with he | he
  · obtain ⟨m, hm⟩ := exists_multiple n he
    exact ⟨m, by rw [hm, zpow_zero, mul_one]⟩
  · exfalso
    have hhalf : (2 : Rat) ^ e ≤ 2 ^ (-1 : Int) := zpow_le_zpow_right₀ one_le_two (by omega)
    have hn' : (n : Rat) ≤ 2 ^ 53 := by exact_mod_cast hn
    have hless : (n : Rat) * 2 ^ e ≤ 2 ^ 53 * 2 ^ (-1 : Int) := by gcongr
    norm_num at hx hless
    linarith

/-- A size is rounded to a size. -/
theorem exists_nearest_natCast_eq (n : Nat) : ∃ m : Nat, nearest n = m := by
  rcases le_or_gt n (2 ^ 53) with hsmall | hlarge
  · exact ⟨n, nearest_natCast_of_le hsmall⟩
  · have hfirst : (2 : Rat) ^ 53 ≤ nearest n := by
      have hle : ((2 ^ 53 : Nat) : Rat) ≤ n := by exact_mod_cast hlarge.le
      exact_mod_cast le_nearest_of_le (representable_natCast (n := 2 ^ 53) le_rfl) hle
    exact exists_natCast_eq (representable_nearest (Nat.cast_nonneg n)) hfirst

/-- Rounding takes less than half of a size away, because it does not go below the
power of two below it. -/
theorem lt_two_mul_nearest {n : Nat} (hn : 0 < n) : (n : Rat) < 2 * nearest n := by
  have hpower : Representable (2 ^ n.log2 : Nat) := ⟨1, n.log2, by norm_num, by omega, by simp⟩
  have hbelow : ((2 ^ n.log2 : Nat) : Rat) ≤ n := by exact_mod_cast Nat.log2_self_le hn.ne'
  have habove : (n : Rat) < 2 ^ (n.log2 + 1) := by exact_mod_cast Nat.lt_log2_self
  have hnearest := le_nearest_of_le hpower hbelow
  push_cast at hnearest
  rw [pow_succ] at habove
  linarith

/-! ### Gaps -/

/-- The gap from a positive integer to the next number of 53 significant digits. -/
def gap (n : Nat) : Rat := 2 ^ ((n.log2 : Int) - 52)

theorem gap_pos (n : Nat) : 0 < gap n := by
  rw [gap]
  positivity

theorem gap_mono {m n : Nat} (h : m ≤ n) : gap m ≤ gap n := by
  have hlog : m.log2 ≤ n.log2 := by
    rw [Nat.log2_eq_log_two, Nat.log2_eq_log_two]
    exact Nat.log_mono_right h
  exact zpow_le_zpow_right₀ one_le_two (by omega)

theorem two_pow_mul_gap (n : Nat) : 2 ^ 52 * gap n = 2 ^ n.log2 := by
  rw [gap, zpow_sub₀ two_ne_zero, zpow_natCast]
  norm_num
  ring

theorem two_pow_mul_gap_le {n : Nat} (hn : 0 < n) : 2 ^ 52 * gap n ≤ n := by
  rw [two_pow_mul_gap]
  exact_mod_cast Nat.log2_self_le hn.ne'

theorem gap_le_one {n : Nat} (hn : 0 < n) (h : n < 2 ^ 53) : gap n ≤ 1 := by
  have hlog : n.log2 < 53 := (Nat.log2_lt hn.ne').mpr h
  exact zpow_le_one_of_nonpos₀ one_le_two (by omega)

theorem exists_eq_mul_gap {n : Nat} (hn : 0 < n) (h : n ≤ 2 ^ 53) :
    ∃ m : Nat, 0 < m ∧ m ≤ 2 ^ 53 ∧ (n : Rat) = m * gap n := by
  rcases h.lt_or_eq with hlt | rfl
  · have hlog : n.log2 < 53 := (Nat.log2_lt hn.ne').mpr hlt
    obtain ⟨k, hk⟩ := Nat.exists_eq_add_of_le (Nat.lt_succ_iff.mp hlog)
    have hgap : gap n = (2 ^ k)⁻¹ := by
      rw [gap, ← zpow_natCast, ← zpow_neg]
      congr 1
      omega
    refine ⟨n * 2 ^ k, by positivity, ?_, ?_⟩
    · have hupper : n < 2 ^ (n.log2 + 1) := Nat.lt_log2_self
      calc n * 2 ^ k ≤ 2 ^ (n.log2 + 1) * 2 ^ k := Nat.mul_le_mul_right _ hupper.le
        _ = 2 ^ 53 := by rw [← pow_add]; congr 1; omega
    · rw [hgap]
      push_cast
      field_simp
  · refine ⟨2 ^ 52, by positivity, by norm_num, ?_⟩
    rw [gap, Nat.log2_two_pow]
    norm_num

theorem representable_sub_gap {n : Nat} (hn : 0 < n) (h : n ≤ 2 ^ 53) :
    Representable (n - gap n) := by
  obtain ⟨m, hpos, hle, hm⟩ := exists_eq_mul_gap hn h
  refine ⟨m - 1, (n.log2 : Int) - 52, by omega, by omega, ?_⟩
  rw [hm, Nat.cast_sub hpos, Nat.cast_one, sub_mul, one_mul, gap]

/-- There is nothing in the gap. -/
theorem add_gap_le_of_lt {n : Nat} (hn : 0 < n) (h : n < 2 ^ 53) {f : Rat}
    (hf : Representable f) (hlt : n < f) : n + gap n ≤ f := by
  obtain ⟨m, -, -, hm⟩ := exists_eq_mul_gap hn h.le
  obtain ⟨k, e, hk, he, rfl⟩ := hf
  rcases le_or_gt ((n.log2 : Int) - 52) e with hle | hgt
  · obtain ⟨k', hk'⟩ := exists_multiple k hle
    rw [hk'] at hlt ⊢
    change (n : Rat) < k' * gap n at hlt
    change (n : Rat) + gap n ≤ k' * gap n
    rw [hm] at hlt
    have hsteps : m + 1 ≤ k' := by exact_mod_cast lt_of_mul_lt_mul_right hlt (gap_pos n).le
    calc (n : Rat) + gap n = (m + 1 : Nat) * gap n := by
          push_cast
          linarith
      _ ≤ k' * gap n := mul_le_mul_of_nonneg_right (by exact_mod_cast hsteps) (gap_pos n).le
  · have hfine : (k : Rat) * 2 ^ e ≤ 2 ^ 52 * gap n := le_of_finer hk hgt
    have hle := two_pow_mul_gap_le hn
    linarith

/-- A number that is short of an integer by more than half of the gap below it is not
rounded to that integer. -/
theorem nearest_lt_of_lt_sub {x : Rat} {n : Nat} (hx : 0 ≤ x) (hn : 0 < n) (h : n ≤ 2 ^ 53)
    (hlt : x < n - gap n / 2) : nearest x < n := by
  have hgap := gap_pos n
  exact nearest_lt_of_lt_middle hx (representable_sub_gap hn h) (by linarith) (by linarith)

/-- A number that is rounded past an integer is past half of the gap above it. -/
theorem add_half_gap_le_of_lt_nearest {x : Rat} {n : Nat} (hx : 0 ≤ x) (hn : 0 < n)
    (h : n < 2 ^ 53) (hlt : n < nearest x) : n + gap n / 2 ≤ x := by
  by_contra hnot
  have hgap := gap_pos n
  have habove := add_gap_le_of_lt hn h (representable_nearest hx) hlt
  have hbelow : nearest x < n + gap n :=
    nearest_lt_of_lt_middle hx (representable_natCast h.le) (by linarith) (by linarith)
  linarith

/-- The last number before one. -/
theorem le_of_lt_one {f : Rat} (hf : Representable f) (hlt : f < 1) : f ≤ 1 - 2 ^ (-53 : Int) := by
  obtain ⟨n, e, hn, -, rfl⟩ := hf
  rcases le_or_gt (-53) e with hle | hgt
  · obtain ⟨m, hm⟩ := exists_multiple n hle
    rw [hm] at hlt ⊢
    rw [zpow_neg, ← div_eq_mul_inv, div_lt_one (by positivity)] at hlt
    have hsteps : m + 1 ≤ 2 ^ 53 := by exact_mod_cast hlt
    have hcast : (m : Rat) + 1 ≤ 2 ^ 53 := by exact_mod_cast hsteps
    norm_num at hcast ⊢
    linarith
  · have hfine := le_of_finer hn hgt
    norm_num at hfine ⊢
    linarith

end Binary64

end Containers
