import TreeCursor.Arithmetic

/-!
# Finite doubles

The finite values of the 64-bit binary floating-point format, with exact rounding to the nearest.
A value is a sign and the place of its absolute value in the increasing sequence of all of them,
which is also its 63-bit encoding.
-/

namespace TreeCursor

namespace Double

/-- The number of finite absolute values. -/
def count : Nat := 2047 * 2 ^ 52

end Double

/-- A finite double; zero has both signs. -/
structure Double where
  negative : Bool
  magnitude : Nat
  finite : magnitude < Double.count
  deriving DecidableEq, Repr

namespace Double

/-- The integer that a power of two scales to give the absolute value. -/
def significand (d : Double) : Nat :=
  if d.magnitude < 2 ^ 52 then d.magnitude else 2 ^ 52 + d.magnitude % 2 ^ 52

/-- The exponent of that power of two. -/
def exponent (d : Double) : Int :=
  if d.magnitude < 2 ^ 52 then -1074 else (d.magnitude / 2 ^ 52 : Nat) - 1075

/-- The absolute value as a fraction. -/
def numerator (d : Double) : Nat :=
  d.significand * 2 ^ d.exponent.toNat

def denominator (d : Double) : Nat :=
  2 ^ (-d.exponent).toNat

def zero (negative : Bool) : Double :=
  ⟨negative, 0, by decide⟩

def isZero (d : Double) : Bool :=
  d.magnitude == 0

/-- Equality of values: the two zeros are equal. -/
instance : BEq Double where
  beq a b := a.magnitude == b.magnitude && (a.negative == b.negative || a.magnitude == 0)

/-- A quotient rounded to the nearest integer, a half to the even neighbour. -/
def roundQuotient (num den : Nat) : Nat :=
  let floor := num / den
  let twice := 2 * (num % den)
  if twice < den then floor
  else if den < twice then floor + 1
  else if floor % 2 == 0 then floor else floor + 1

/-- The place of the value nearest to a positive fraction, as if there were no largest value. -/
def nearestMagnitude (num den : Nat) : Nat :=
  let estimate : Int := (num.log2 : Int) - den.log2
  let binade : Int :=
    if den * 2 ^ estimate.toNat ≤ num * 2 ^ (-estimate).toNat then estimate else estimate - 1
  let unit : Int := max (binade - 52) (-1074)
  (unit + 1074).toNat * 2 ^ 52 + roundQuotient (num * 2 ^ (-unit).toNat) (den * 2 ^ unit.toNat)

/-- The value nearest to a fraction, unless that is beyond the largest one. -/
def ofRatio? (negative : Bool) (num den : Nat) : Option Double :=
  if num = 0 then
    some (zero negative)
  else
    let magnitude := nearestMagnitude num den
    if h : magnitude < count then some ⟨negative, magnitude, h⟩ else none

/-- The rounded product of two absolute values. -/
def mul? (a b : Double) : Option Double :=
  ofRatio? false (a.numerator * b.numerator) (a.denominator * b.denominator)

/-- The rounded quotient of two absolute values. -/
def div? (a b : Double) : Option Double :=
  ofRatio? false (a.numerator * b.denominator) (a.denominator * b.numerator)

end Double

end TreeCursor
