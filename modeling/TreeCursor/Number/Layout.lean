import TreeCursor.Number.Shortest

/-!
# The text of a double

Where the point goes.  Values from 0.00001 up to but not including 10^16 are written out and have
a digit on each side of the point; all others are in exponent form with one digit before it.
-/

namespace TreeCursor.Double

def zeros (n : Nat) : List Char :=
  List.replicate n '0'

/-- An exponent with its sign. -/
def exponentText (exponent : Int) : List Char :=
  (if exponent < 0 then '-' else '+') :: Nat.toDigits 10 exponent.natAbs

/-- The text of a positive decimal. -/
def layout (decimal : Decimal) : List Char :=
  let digits := Nat.toDigits 10 decimal.digits
  let point : Int := digits.length + decimal.exponent
  if 0 ≤ decimal.exponent ∧ point ≤ 16 then
    digits ++ zeros decimal.exponent.toNat ++ ['.', '0']
  else if 0 < point ∧ point ≤ 16 then
    digits.take point.toNat ++ '.' :: digits.drop point.toNat
  else if -5 < point ∧ point ≤ 0 then
    '0' :: '.' :: (zeros (-point).toNat ++ digits)
  else
    match digits with
    | [] => []
    | [digit] => digit :: 'e' :: exponentText (point - 1)
    | digit :: others => digit :: '.' :: (others ++ 'e' :: exponentText (point - 1))

/-- The shortest text of a double. -/
def text (d : Double) : List Char :=
  (if d.negative then ['-'] else []) ++
    if d.isZero then ['0', '.', '0'] else layout d.shortest

end TreeCursor.Double
