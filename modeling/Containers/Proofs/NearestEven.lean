/-
Rounding to nearest, ties to even, as a relation between two numbers that does not say how it
is computed.  The relation leaves no choice, and what is computed satisfies it.
-/
import Containers.Proofs.NearestValue
import Mathlib.Algebra.Group.Nat.Even
import Mathlib.Algebra.Order.AbsoluteValue.Basic

namespace Containers

namespace Binary64

/-- Numbers of which the last one of 53 binary digits is zero, or the digit for `2^(-1074)`
if that one comes first. -/
def EndsEven (x : Rat) : Prop :=
  ∃ (n : Nat) (e : Int), Even n ∧ n < 2 ^ 53 ∧ -1074 ≤ e ∧ x = n * 2 ^ e

/-- No number that needs no rounding is closer to `x` than `r` is, and if another one is as
close, then `r` ends even. -/
structure RoundsTo (x r : Rat) : Prop where
  representable : Representable r
  closest : ∀ f, Representable f → |x - r| ≤ |x - f|
  even : ∀ f, Representable f → f ≠ r → |x - r| = |x - f| → EndsEven r

/-- The first number of 54 digits also has 53. -/
theorem endsEven_of_le {n : Nat} {e : Int} (heven : Even n) (hn : n ≤ 2 ^ 53) (he : -1074 ≤ e) :
    EndsEven (n * 2 ^ e) := by
  rcases hn.lt_or_eq with hlt | rfl
  · exact ⟨n, e, heven, hlt, he, rfl⟩
  · refine ⟨2 ^ 52, e + 1, (Nat.even_pow.mpr ⟨even_two, by norm_num⟩), by norm_num, by omega, ?_⟩
    rw [zpow_add_one₀ two_ne_zero]
    push_cast
    ring

/-- On a finer grid an even multiple stays even. -/
theorem exists_even_multiple {n : Nat} (hn : Even n) {fine coarse : Int} (h : fine ≤ coarse) :
    ∃ m : Nat, Even m ∧ (n : Rat) * 2 ^ coarse = m * 2 ^ fine := by
  obtain ⟨k, rfl⟩ := hn
  obtain ⟨m, hm⟩ := exists_multiple k h
  refine ⟨m + m, ⟨m, rfl⟩, ?_⟩
  push_cast
  rw [add_mul, add_mul, hm]

theorem exists_between_of_even {m n : Nat} (hm : Even m) (hn : Even n) {e : Int}
    (he : -1074 ≤ e) (hsmall : m < 2 ^ 53) (h : (m : Rat) * 2 ^ e < n * 2 ^ e) :
    ∃ f, Representable f ∧ m * 2 ^ e < f ∧ f < n * 2 ^ e := by
  have hu : (0 : Rat) < 2 ^ e := by positivity
  have hlt : m < n := by exact_mod_cast lt_of_mul_lt_mul_right h hu.le
  have hnext : m + 1 < n := by
    obtain ⟨k, rfl⟩ := hm
    obtain ⟨l, rfl⟩ := hn
    omega
  refine ⟨(m + 1 : Nat) * 2 ^ e, ⟨m + 1, e, hsmall, he, rfl⟩, ?_, ?_⟩
  · exact mul_lt_mul_of_pos_right (by exact_mod_cast Nat.lt_succ_self m) hu
  · exact mul_lt_mul_of_pos_right (by exact_mod_cast hnext) hu

/-- Two numbers that end even are no neighbours: on the finer one of their grids there is an odd
multiple between them. -/
theorem EndsEven.exists_between {x y : Rat} (hx : EndsEven x) (hy : EndsEven y) (h : x < y) :
    ∃ f, Representable f ∧ x < f ∧ f < y := by
  obtain ⟨m, d, hm, hmlt, hd, rfl⟩ := hx
  obtain ⟨n, e, hn, hnlt, he, rfl⟩ := hy
  rcases le_total d e with hle | hle
  · obtain ⟨k, hk, heq⟩ := exists_even_multiple hn hle
    rw [heq] at h ⊢
    exact exists_between_of_even hm hk hd hmlt h
  · obtain ⟨k, hk, heq⟩ := exists_even_multiple hm hle
    rw [heq] at h ⊢
    have hlt : k < n := by
      exact_mod_cast lt_of_mul_lt_mul_right h (by positivity : (0 : Rat) ≤ 2 ^ e)
    exact exists_between_of_even hk hn he (hlt.trans hnlt) h

/-! ### One result -/

/-- Two results would be equally close and both end even, so that something between them would
be closer. -/
theorem RoundsTo.not_lt {x r r' : Rat} (h : RoundsTo x r) (h' : RoundsTo x r') : ¬ r < r' := by
  intro hlt
  have htie : |x - r| = |x - r'| :=
    le_antisymm (h.closest r' h'.representable) (h'.closest r h.representable)
  have hmiddle : x - r = r' - x := by
    rcases abs_eq_abs.mp htie with hsame | hopposite <;> linarith
  obtain ⟨f, hf, hrf, hfr⟩ :=
    (h.even r' h'.representable hlt.ne' htie).exists_between
      (h'.even r h.representable hlt.ne htie.symm) hlt
  have hclosest := h.closest f hf
  have hcloser : |x - f| < |x - r| := by
    rw [abs_of_pos (by linarith : 0 < x - r), abs_lt]
    constructor <;> linarith
  exact hcloser.not_ge hclosest

theorem RoundsTo.unique {x r r' : Rat} (h : RoundsTo x r) (h' : RoundsTo x r') : r = r' :=
  le_antisymm (le_of_not_gt (h'.not_lt h)) (le_of_not_gt (h.not_lt h'))

/-! ### The result that is computed -/

/-- Whatever is as close as the first multiple of 53 digits is a multiple on the grid itself. -/
theorem OnGrid.exists_multiple {x : Rat} {e : Int} (h : OnGrid x e) {f : Rat}
    (hf : Representable f) (hclose : |x - f| ≤ |x - 2 ^ 52 * 2 ^ e|) :
    ∃ m : Nat, f = m * 2 ^ e := by
  obtain ⟨n, e', hn, he', rfl⟩ := hf
  rcases le_or_gt e e' with hle | hlt
  · exact Binary64.exists_multiple n hle
  · have hfirst : 2 ^ 52 * 2 ^ e ≤ x := h.lower.resolve_left (by omega)
    have hfine := le_of_finer hn hlt
    rw [abs_of_nonneg (by linarith), abs_of_nonneg (by linarith)] at hclose
    exact ⟨2 ^ 52, by push_cast; linarith⟩

/-- Another multiple as close as the one that is computed is half a step away, as that one
is. -/
theorem endsEven_nearest {x f : Rat} (hx : 0 < x) (hf : Representable f) (hne : f ≠ nearest x)
    (htie : |x - nearest x| = |x - f|) : EndsEven (nearest x) := by
  obtain ⟨e, r, hgrid, hnearest, hclose, heven⟩ := exists_nearest_eq_even hx
  have hu : (0 : Rat) < 2 ^ e := by positivity
  have hfirst : Representable (2 ^ 52 * 2 ^ e) :=
    ⟨2 ^ 52, e, by norm_num, hgrid.finest_le, by push_cast; rfl⟩
  obtain ⟨m, rfl⟩ := hgrid.exists_multiple hf (htie ▸ nearest_closest hx.le hfirst)
  rw [hnearest] at hne htie ⊢
  rw [abs_sub_mul_eq hu, abs_sub_mul_eq hu] at htie
  have hsame : |x / 2 ^ e - r| = |x / 2 ^ e - m| := mul_right_cancel₀ hu.ne' htie
  have hgap : (1 : Rat) ≤ |(r : Rat) - m| := by
    have hint : (1 : Int) ≤ |(r : Int) - m| := Int.one_le_abs (by
      intro hzero
      have hrm : m = r := by omega
      exact hne (by rw [hrm]))
    exact_mod_cast hint
  have htriangle := abs_sub_le (r : Rat) (x / 2 ^ e) m
  rw [abs_sub_comm (r : Rat) (x / 2 ^ e), ← hsame] at htriangle
  exact endsEven_of_le (heven (by linarith)) (hgrid.le_of_close hclose) hgrid.finest_le

theorem roundsTo_nearest {x : Rat} (hx : 0 ≤ x) : RoundsTo x (nearest x) where
  representable := representable_nearest hx
  closest f hf := nearest_closest hx hf
  even f hf hne htie := by
    rcases hx.eq_or_lt with rfl | hpos
    · rw [nearest_zero, sub_zero, abs_zero, zero_sub, abs_neg, eq_comm, abs_eq_zero] at htie
      rw [nearest_zero] at hne
      contradiction
    · exact endsEven_nearest hpos hf hne htie

/-- Rounding is fixed by what it is to round. -/
theorem roundsTo_iff {x r : Rat} (hx : 0 ≤ x) : RoundsTo x r ↔ r = nearest x := by
  constructor
  · exact fun h => h.unique (roundsTo_nearest hx)
  · rintro rfl
    exact roundsTo_nearest hx

end Binary64

end Containers
