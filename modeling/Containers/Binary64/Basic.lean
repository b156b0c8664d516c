/-
Binary64 numbers as bit patterns: one sign bit, eleven bits of exponent and
fifty-two bits of fraction.
-/
import Containers.Binary64.Value

namespace Containers

/-- A binary64 number, given by its bit pattern. -/
structure Binary64 where
  bits : UInt64
deriving DecidableEq

namespace Binary64

def isNegative (x : Binary64) : Bool := x.bits.toNat / 9223372036854775808 == 1

def biasedExponent (x : Binary64) : Nat := x.bits.toNat / 4503599627370496 % 2048

def fraction (x : Binary64) : Nat := x.bits.toNat % 4503599627370496

/-- The number denoted by a pattern with a sign, an exponent that is not the
largest one, and a fraction.  The smallest exponent has no leading one. -/
def ofParts (negative : Bool) (exponent fraction : Nat) : Rat :=
  let size : Rat :=
    if exponent = 0 then scaled fraction (-1074)
    else scaled (4503599627370496 + fraction) ((exponent : Int) - 1075)
  if negative then -size else size

/-- What the pattern denotes.  The largest exponent is kept for the infinities
and the missing value. -/
def value (x : Binary64) : Value :=
  if x.biasedExponent = 2047 then
    if x.fraction = 0 then .infinite x.isNegative else .nan
  else .finite (ofParts x.isNegative x.biasedExponent x.fraction)

/-- The exact number denoted by a finite pattern. -/
def toRat? (x : Binary64) : Option Rat :=
  match x.value with
  | .finite number => some number
  | _ => none

end Binary64

end Containers
