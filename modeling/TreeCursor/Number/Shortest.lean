import TreeCursor.Number.Double

/-!
# Shortest decimals

The decimal with the fewest digits that rounds to a given double, and the nearest to it among
those.  The decimals that round to a double fill an interval; for one digit, two digits and so on
the two neighbours of the value on that decimal grid are tried.
-/

namespace TreeCursor

/-- The number `digits * 10 ^ exponent`. -/
structure Decimal where
  digits : Nat
  exponent : Int
  deriving DecidableEq, Repr

namespace Double

/-- The order of `a * 10 ^ i` and `b * 2 ^ j`. -/
def compareScaled (a : Nat) (i : Int) (b : Nat) (j : Int) : Ordering :=
  compare (a * 10 ^ i.toNat * 2 ^ (-j).toNat) (b * 2 ^ j.toNat * 10 ^ (-i).toNat)

/-- Whether a decimal rounds to the absolute value of the double: it lies between the points half
way to the neighbours, which belong to the double when its significand is even. -/
def readsBack (d : Double) (decimal : Decimal) : Bool :=
  let narrow := d.significand == 2 ^ 52 && -1074 < d.exponent
  let low := if narrow then 4 * d.significand - 1 else 4 * d.significand - 2
  let high := 4 * d.significand + 2
  let even := d.significand % 2 == 0
  let fromLow := compareScaled decimal.digits decimal.exponent low (d.exponent - 2)
  let fromHigh := compareScaled decimal.digits decimal.exponent high (d.exponent - 2)
  (fromLow == .gt || (even && fromLow == .eq)) && (fromHigh == .lt || (even && fromHigh == .eq))

/-- The number of digits of a natural number. -/
def digitCount (n : Nat) : Nat :=
  (Nat.toDigits 10 n).length

/-- The exponent of the power of ten that is the greatest up to the value. -/
def decimalExponent (d : Double) : Int :=
  let num := d.numerator
  let den := d.denominator
  let estimate : Int := (digitCount num : Int) - digitCount den
  if den * 10 ^ estimate.toNat ≤ num * 10 ^ (-estimate).toNat then estimate else estimate - 1

/-- The best decimal on the grid of a power of ten, if one of the two neighbours reads back. -/
def onGrid? (d : Double) (exponent : Int) : Option Decimal :=
  let num := d.numerator * 10 ^ (-exponent).toNat
  let den := d.denominator * 10 ^ exponent.toNat
  let below : Decimal := ⟨num / den, exponent⟩
  let above : Decimal := ⟨num / den + 1, exponent⟩
  match d.readsBack below, d.readsBack above with
  | false, false => none
  | true, false => some below
  | false, true => some above
  | true, true => some ⟨roundQuotient num den, exponent⟩

/-- The first grid with a hit, from the given number of digits on; seventeen always suffice. -/
def searchGrids (d : Double) (leading : Int) : Nat → Decimal
  | 0 => ⟨d.numerator * 5 ^ (-d.exponent).toNat, min d.exponent 0⟩
  | tries + 1 =>
      match d.onGrid? (leading - (16 - tries : Nat)) with
      | some decimal => decimal
      | none => searchGrids d leading tries

/-- The decimal without the zeros that its digits end in. -/
def stripZeros (decimal : Decimal) : Decimal :=
  if h : decimal.digits ≠ 0 ∧ decimal.digits % 10 = 0 then
    stripZeros ⟨decimal.digits / 10, decimal.exponent + 1⟩
  else
    decimal
termination_by decimal.digits
decreasing_by omega

/-- The shortest decimal that reads back as the absolute value of a double other than zero. -/
def shortest (d : Double) : Decimal :=
  stripZeros (searchGrids d d.decimalExponent 17)

end Double

end TreeCursor
