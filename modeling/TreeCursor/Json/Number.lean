import TreeCursor.Number.Layout

/-!
# JSON numbers

A number is an integer of the 64-bit ranges, signed and unsigned, or a double.  A literal without
fraction and exponent that fits is an integer; any other literal is a double.  The double is not
always the one nearest to the literal: the digits that fit in 64 bits are rounded first, and the
product or quotient with the power of ten is rounded again.
-/

namespace TreeCursor

/-- A JSON number.  An integer and a double are different numbers, whatever their values. -/
inductive Number where
  | int (value : Int) (inRange : -2 ^ 63 ≤ value ∧ value < 2 ^ 64)
  | double (value : Double)
  deriving DecidableEq, Repr

namespace Number

theorem inRange_of_lt {value : Nat} (h : value < 2 ^ 64) :
    -2 ^ 63 ≤ (value : Int) ∧ (value : Int) < 2 ^ 64 := by
  omega

instance : BEq Number where
  beq
    | .int a _, .int b _ => a == b
    | .double a, .double b => a == b
    | _, _ => false

/-- The text of a number. -/
def text : Number → List Char
  | .int value _ => (toString value).toList
  | .double value => value.text

/-- The parts of a number as it is written. -/
structure Literal where
  negative : Bool
  whole : List Nat
  /-- The digits after the point, if there is one. -/
  fraction : Option (List Nat)
  /-- The power of ten, if there is one. -/
  power : Option Int
  deriving DecidableEq, Repr

/-- The digits that a 64-bit significand has room for after what it holds, and the others. -/
def fillSignificand (significand : Nat) : List Nat → Nat × List Nat
  | [] => (significand, [])
  | digit :: rest =>
      if significand * 10 + digit < 2 ^ 64 then
        fillSignificand (significand * 10 + digit) rest
      else
        (significand, digit :: rest)

/-- A power of ten, rounded to a double. -/
def powerOfTen? (exponent : Nat) : Option Double :=
  Double.ofRatio? false (10 ^ exponent) 1

/-- An absolute value divided by the largest power of ten that is a double, so many times. -/
def lower? : Nat → Double → Option Double
  | 0, value => some value
  | times + 1, value =>
      if value.isZero then
        some value
      else
        match (powerOfTen? 308).bind value.div? with
        | none => none
        | some lowered => lower? times lowered

/-- An absolute value times a power of ten, one rounded operation for every 308 places. -/
def scale? (value : Double) (exponent : Int) : Option Double :=
  if value.isZero then
    some value
  else if 0 ≤ exponent then
    if exponent ≤ 308 then (powerOfTen? exponent.toNat).bind value.mul? else none
  else
    let times := (exponent.natAbs - 1) / 308
    match lower? times value, powerOfTen? (exponent.natAbs - 308 * times) with
    | some lowered, some power => lowered.div? power
    | _, _ => none

/-- The double that a literal stands for, unless it is beyond the largest one. -/
def Literal.double? (literal : Literal) : Option Double :=
  let (whole, dropped) := fillSignificand 0 literal.whole
  let fraction := literal.fraction.getD []
  let (significand, unread) := fillSignificand whole fraction
  let exponent : Int :=
    (dropped.length : Int) - (fraction.length - unread.length : Nat) + literal.power.getD 0
  match (Double.ofRatio? false significand 1).bind (scale? · exponent) with
  | none => none
  | some value => some { value with negative := literal.negative }

/-- The integer that a literal stands for, if it is written as one and fits.  Minus zero is left
to the doubles. -/
def Literal.int? (literal : Literal) : Option Number :=
  match literal.fraction, literal.power, fillSignificand 0 literal.whole with
  | none, none, (value, []) =>
      if literal.negative then
        if h : 0 < value ∧ value ≤ 2 ^ 63 then some (.int (-value) (by omega)) else none
      else if h : value < 2 ^ 64 then
        some (.int value (inRange_of_lt h))
      else
        none
  | _, _, _ => none

/-- The number that a literal stands for. -/
def Literal.value? (literal : Literal) : Option Number :=
  match literal.int? with
  | some number => some number
  | none => literal.double?.map .double

end Number

end TreeCursor
