/-
The numbers that binary64 arithmetic computes with.  Each operation gives the
exact result, rounded once.
-/
import Containers.Size
import Containers.Binary64.Rounding

namespace Containers

namespace Binary64

/-- What a binary64 pattern denotes.  The two zeros denote the same number. -/
inductive Value
  | nan
  | infinite (negative : Bool)
  | finite (number : Rat)
deriving DecidableEq

namespace Value

/-- An exact result as binary64 arithmetic delivers it: rounded to nearest,
and infinite from `2^1024` on. -/
def round (x : Rat) : Value :=
  let rounded := nearest x
  if -twoPow 1024 < rounded ∧ rounded < twoPow 1024 then finite rounded
  else infinite (decide (x < 0))

/-- The value nearest to a natural number.  One of at most 53 binary digits is a
value itself. -/
def ofNat (n : Nat) : Value :=
  if n < 9007199254740992 then finite n else round n

theorem ofNat_eq_round (n : Nat) : ofNat n = round n := by
  unfold ofNat
  split
  · rename_i h
    have hrange : -twoPow 1024 < (n : Rat) ∧ (n : Rat) < twoPow 1024 :=
      natCast_lt_twoPow (k := 1024) h (by decide)
    rw [round, nearest_natCast h, if_pos hrange]
  · rfl

/-- The product.  An infinity times zero has no value. -/
def mul : Value → Value → Value
  | nan, _ => nan
  | _, nan => nan
  | infinite s, infinite t => infinite (s != t)
  | infinite s, finite x | finite x, infinite s =>
    if x = 0 then nan else infinite (s != decide (x < 0))
  | finite x, finite y => round (x * y)

/-- The quotient by a number other than zero. -/
def divideBy (divisor : Rat) : Value → Value
  | nan => nan
  | infinite s => infinite (s != decide (divisor < 0))
  | finite x => round (x / divisor)

/-- Strictly less.  No comparison with a missing value holds. -/
def lt : Value → Value → Bool
  | nan, _ => false
  | _, nan => false
  | infinite s, infinite t => s && !t
  | infinite s, finite _ => s
  | finite _, infinite t => !t
  | finite x, finite y => decide (x < y)

/-- Less or equal.  No comparison with a missing value holds. -/
def le : Value → Value → Bool
  | nan, _ => false
  | _, nan => false
  | infinite s, infinite t => s || !t
  | infinite s, finite _ => s
  | finite _, infinite t => !t
  | finite x, finite y => decide (x ≤ y)

/-- The integer part as a size: negative numbers and missing values give zero,
and everything past the largest size gives the largest size. -/
def toSize : Value → Nat
  | nan => 0
  | infinite negative => if negative then 0 else maxSize
  | finite x => min maxSize x.floor.toNat

end Value

end Binary64

end Containers
