import TreeCursor.Arithmetic

/-!
# Counts

Numbers of 64 bits as they are written in scripts and filters.
-/

namespace TreeCursor.Text

/-- Why a count is not read. -/
inductive CountError where
  | empty
  | invalidDigit
  | tooLarge
  deriving DecidableEq, Repr

def CountError.message : CountError → String
  | .empty => "cannot parse integer from empty string"
  | .invalidDigit => "invalid digit found in string"
  | .tooLarge => "number too large to fit in target type"

/-- The number of the decimal digits after what is read so far, in 64 bits.  The first fault from
the left counts: a character that is no digit, or a digit that there is no room for. -/
def countDigits (value : Nat) : List Char → Except CountError Nat
  | [] => .ok value
  | c :: rest =>
      if c.isDigit then
        let value := value * 10 + (c.toNat - 48)
        if value < 2 ^ 64 then countDigits value rest else .error .tooLarge
      else
        .error .invalidDigit

/-- A count: digits, perhaps after a plus sign. -/
def count : List Char → Except CountError Nat
  | [] => .error .empty
  | ['+'] => .error .invalidDigit
  | '+' :: digits => countDigits 0 digits
  | digits => countDigits 0 digits

end TreeCursor.Text
