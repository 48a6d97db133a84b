/-!
# Hexadecimal digits

Digits in either case, and the characters whose code points they give.
-/

namespace TreeCursor.Text

/-- The digits of a code point, in small letters. -/
def hexDigits (code : Nat) : List Char :=
  Nat.toDigits 16 code

/-- The value of a digit in either case. -/
def hexValue? (c : Char) : Option Nat :=
  if '0' ≤ c ∧ c ≤ '9' then some (c.toNat - 48)
  else if 'a' ≤ c ∧ c ≤ 'f' then some (c.toNat - 87)
  else if 'A' ≤ c ∧ c ≤ 'F' then some (c.toNat - 55)
  else none

/-- The character with a code point, if it is one. -/
def scalar? (code : Nat) : Option Char :=
  if h : code.isValidChar then some (Char.ofNatAux code h) else none

/-- The character of so many digits at the start of a text, and the rest. -/
def hexChar? (digits : Nat) (s : List Char) : Option (Char × List Char) :=
  if (s.take digits).length = digits then
    match (s.take digits).mapM hexValue? with
    | none => none
    | some values =>
        (scalar? (values.foldl (fun code value => code * 16 + value) 0)).map fun c =>
          (c, s.drop digits)
  else
    none

end TreeCursor.Text
