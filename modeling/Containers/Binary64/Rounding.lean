/-
Rounding an exact rational to the nearest number with 53 significant binary
digits, ties going to the even neighbour.
-/
namespace Containers

namespace Binary64

/-- A multiple of an integer power of two, as an exact rational. -/
def scaled (multiple : Nat) (e : Int) : Rat := mkRat (multiple <<< e.toNat) (1 <<< (-e).toNat)

/-- Two to an integer power. -/
def twoPow (e : Int) : Rat := scaled 1 e

/-- The integer nearest to a quotient; a quotient half way between two integers
goes to the even one. -/
def roundHalfEven (num den : Nat) : Nat :=
  let low := num / den
  let rest := num % den
  if 2 * rest < den then low
  else if den < 2 * rest then low + 1
  else if low % 2 = 0 then low
  else low + 1

theorem roundHalfEven_one (n : Nat) : roundHalfEven n 1 = n := by
  simp [roundHalfEven, Nat.mod_one]

/-- The `e` with `2^e ≤ num / den < 2^(e + 1)`, for positive `num` and `den`.  The
lengths of the two leave two candidates. -/
def binaryExponent (num den : Nat) : Int :=
  let guess : Int := (num.log2 : Int) - (den.log2 : Int)
  if den <<< guess.toNat ≤ num <<< (-guess).toNat then guess else guess - 1

/-- The exponent of the grid on which `num / den` is rounded: 53 digits from the
first significant one on, but no digit below `2^(-1074)`. -/
def gridExponent (num den : Nat) : Int :=
  let fine := binaryExponent num den - 52
  if fine < -1074 then -1074 else fine

/-- The grid point nearest to `x`, with ties to the even multiple of the grid. -/
def nearest (x : Rat) : Rat :=
  let num := x.num.natAbs
  let den := x.den
  let e := gridExponent num den
  let multiple := roundHalfEven (num <<< (-e).toNat) (den <<< e.toNat)
  let size := scaled multiple e
  if x < 0 then -size else size

/-! ### Natural numbers of at most 53 digits -/

theorem scaled_shiftLeft (n k : Nat) : scaled (n <<< k) (-(k : Int)) = n := by
  have hk : (2 : Nat) ^ k ≠ 0 := Nat.ne_of_gt (Nat.two_pow_pos k)
  have hcancel := Rat.mkRat_mul_right (n := (n : Int)) (d := 1) hk
  simp [scaled, Nat.shiftLeft_eq] at hcancel ⊢
  rw [hcancel]
  exact Rat.mkRat_one _

private theorem gridExponent_natCast {n : Nat} (h : n < 9007199254740992) :
    gridExponent n 1 ≤ 0 := by
  have hlog : n.log2 ≤ 52 := by
    rcases Nat.eq_zero_or_pos n with rfl | hn
    · simp
    · exact Nat.le_of_lt_succ ((Nat.log2_lt (by omega)).2 (by simpa using h))
  have hone : Nat.log2 1 = 0 := by decide
  unfold gridExponent binaryExponent
  simp only [hone]
  split <;> split <;> omega

/-- They lie on their own grid. -/
theorem nearest_natCast {n : Nat} (h : n < 9007199254740992) : nearest n = n := by
  have hgrid := gridExponent_natCast h
  obtain ⟨k, hk⟩ := Int.eq_ofNat_of_zero_le (a := -gridExponent n 1) (by omega)
  have he : gridExponent n 1 = -(k : Int) := by omega
  have hsign : ¬ ((n : Rat) < 0) := Rat.not_lt.2 Rat.natCast_nonneg
  unfold nearest
  simp [he, roundHalfEven_one, hsign, scaled_shiftLeft]

theorem natCast_lt_twoPow {n k : Nat} (h : n < 9007199254740992) (hk : 53 ≤ k) :
    -twoPow k < (n : Rat) ∧ (n : Rat) < twoPow k := by
  have hpow : twoPow k = ((2 ^ k : Nat) : Rat) := by
    simp [twoPow, scaled, Nat.shiftLeft_eq, Rat.mkRat_one]
  have hlt : (n : Rat) < twoPow k := by
    rw [hpow, Rat.natCast_lt_natCast]
    exact Nat.lt_of_lt_of_le (m := 2 ^ 53) h (Nat.pow_le_pow_right Nat.two_pos hk)
  have hnonneg : (0 : Rat) ≤ n := Rat.natCast_nonneg
  constructor <;> grind

end Binary64

end Containers
