import TreeCursor.Number.Double
import TreeCursor.Text.Hex
import TreeCursor.Toml.Basic

/-!
# TOML strings, numbers and dates

Readers of the start of a text, which leave the rest, or of nothing where the text is not theirs.
-/

namespace TreeCursor.Toml

/-- A reader of the start of a text. -/
abbrev Scanner (β : Type) : Type :=
  List Char → Option (β × List Char)

namespace Scan

def isSpace (c : Char) : Bool :=
  c == ' ' || c == '\t'

def skipSpace (s : List Char) : List Char :=
  s.dropWhile isSpace

/-- The text after a line end. -/
def newline? : List Char → Option (List Char)
  | '\n' :: rest => some rest
  | '\r' :: '\n' :: rest => some rest
  | _ => none

/-- Whether a character may stand in a comment or, but for the delimiter, in a string. -/
def isVisible (c : Char) : Bool :=
  c == '\t' || (0x20 ≤ c.toNat && c.toNat != 0x7f)

/-! ## Strings -/

/-- The character of an escape, after its backslash. -/
def escape : Scanner Char
  | [] => none
  | c :: rest =>
      match c with
      | 'b' => some ('\x08', rest)
      | 't' => some ('\t', rest)
      | 'n' => some ('\n', rest)
      | 'f' => some ('\x0c', rest)
      | 'r' => some ('\r', rest)
      | '"' => some ('"', rest)
      | '\\' => some ('\\', rest)
      | 'u' => Text.hexChar? 4 rest
      | 'U' => Text.hexChar? 8 rest
      | _ => none

/-- The characters up to a quote, in at most so many steps; only some strings know escapes. -/
def oneLine (quote : Char) (escapes : Bool) : Nat → List Char → Scanner String
  | 0, _, _ => none
  | _ + 1, _, [] => none
  | bound + 1, read, c :: rest =>
      if c = quote then some (String.ofList read.reverse, rest)
      else if escapes ∧ c = '\\' then
        match escape rest with
        | none => none
        | some (c, rest) => oneLine quote escapes bound (c :: read) rest
      else if isVisible c then oneLine quote escapes bound (c :: read) rest
      else none

/-- The text after blanks and line ends. -/
def skipLines : List Char → List Char
  | ' ' :: rest => skipLines rest
  | '\t' :: rest => skipLines rest
  | '\n' :: rest => skipLines rest
  | '\r' :: '\n' :: rest => skipLines rest
  | s => s

/-- The characters up to three quotes in a row, in at most so many steps.  One or two quotes more
may stand directly before those.  A backslash at the end of a line takes all blanks and line ends
after it away. -/
def manyLines (quote : Char) (escapes : Bool) : Nat → List Char → Scanner String
  | 0, _, _ => none
  | _ + 1, _, [] => none
  | bound + 1, read, c :: rest =>
      if c = quote then
        let quotes := ((c :: rest).takeWhile (· == quote)).length
        if quotes < 3 then
          manyLines quote escapes bound (List.replicate quotes quote ++ read)
            ((c :: rest).drop quotes)
        else
          let closing := min quotes 5
          some (String.ofList (List.replicate (closing - 3) quote ++ read).reverse,
            (c :: rest).drop closing)
      else
        match newline? (c :: rest) with
        | some rest => manyLines quote escapes bound ('\n' :: read) rest
        | none =>
            if escapes ∧ c = '\\' then
              match newline? (skipSpace rest) with
              | some rest => manyLines quote escapes bound read (skipLines rest)
              | none =>
                  match escape rest with
                  | none => none
                  | some (c, rest) => manyLines quote escapes bound (c :: read) rest
            else if isVisible c then manyLines quote escapes bound (c :: read) rest
            else none

/-- A string that may go over many lines, after its quotes; a line end right there is left out. -/
def afterQuotes (quote : Char) (escapes : Bool) (bound : Nat) : Scanner String := fun s =>
  manyLines quote escapes bound [] ((newline? s).getD s)

/-- A string on one line. -/
def lineString (bound : Nat) : Scanner String
  | '"' :: rest => oneLine '"' true bound [] rest
  | '\'' :: rest => oneLine '\'' false bound [] rest
  | _ => none

/-- A string of any of the four kinds. -/
def string (bound : Nat) : Scanner String
  | '"' :: '"' :: '"' :: rest => afterQuotes '"' true bound rest
  | '\'' :: '\'' :: '\'' :: rest => afterQuotes '\'' false bound rest
  | s => lineString bound s

/-! ## Numbers -/

/-- The digits that a text begins with; an underscore may stand between two of them. -/
def digitRun (isDigit : Char → Bool) (started : Bool) : List Char → List Char × List Char
  | [] => ([], [])
  | c :: rest =>
      if isDigit c then
        let (digits, rest) := digitRun isDigit true rest
        (c :: digits, rest)
      else if started && c == '_' && rest.head?.any isDigit then
        digitRun isDigit false rest
      else
        ([], c :: rest)

/-- The number that digits stand for in a base. -/
def ofDigits (base : Nat) (digits : List Char) : Nat :=
  digits.foldl (fun value c => value * base + (Text.hexValue? c).getD 0) 0

/-- A sign, if there is one. -/
def sign : List Char → Bool × List Char
  | '+' :: rest => (false, rest)
  | '-' :: rest => (true, rest)
  | s => (false, s)

/-- Decimal digits that begin with a zero only if that is all. -/
def decimalDigits (s : List Char) : Option (List Char × List Char) :=
  match s with
  | '0' :: rest => some (['0'], rest)
  | _ =>
      match digitRun Char.isDigit false s with
      | ([], _) => none
      | run => some run

/-- Digits in a base other than ten, after the zero and letter that announce it. -/
def basedInteger (base : Nat) (isDigit : Char → Bool) : Scanner Int := fun s =>
  match digitRun isDigit false s with
  | ([], _) => none
  | (digits, rest) =>
      let value := ofDigits base digits
      if value < 2 ^ 63 then some (value, rest) else none

/-- A signed 64-bit integer. -/
def integer : Scanner Int
  | '0' :: 'x' :: rest => basedInteger 16 (fun c => (Text.hexValue? c).isSome) rest
  | '0' :: 'o' :: rest => basedInteger 8 (fun c => '0' ≤ c ∧ c ≤ '7') rest
  | '0' :: 'b' :: rest => basedInteger 2 (fun c => c == '0' || c == '1') rest
  | s =>
      let (negative, s) := sign s
      match decimalDigits s with
      | none => none
      | some (digits, rest) =>
          let value : Int := if negative then -(ofDigits 10 digits : Int) else ofDigits 10 digits
          if -2 ^ 63 ≤ value ∧ value < 2 ^ 63 then some (value, rest) else none

/-- The digits of an exponent with its sign. -/
def exponent? : List Char → Option (Int × List Char)
  | c :: rest =>
      if c = 'e' ∨ c = 'E' then
        let (negative, rest) := sign rest
        match digitRun Char.isDigit false rest with
        | ([], _) => none
        | (digits, rest) =>
            some (if negative then -(ofDigits 10 digits : Int) else ofDigits 10 digits, rest)
      else
        none
  | [] => none

/-- The digits after a point. -/
def fraction? : List Char → Option (List Char × List Char)
  | '.' :: rest =>
      match digitRun Char.isDigit false rest with
      | ([], _) => none
      | run => some run
  | _ => none

/-- Whether digits times a power of ten are beyond the largest double. -/
def overflows (digits : List Char) (exponent : Int) : Bool :=
  let value := ofDigits 10 digits
  let places : Int := exponent + (Nat.toDigits 10 value).length
  if value = 0 then false
  else if 400 < places then true
  else if places < 0 then false
  else (Double.ofRatio? false (value * 10 ^ exponent.toNat) (10 ^ (-exponent).toNat)).isNone

/-- A number with a fraction or an exponent; a positive one has to be finite. -/
def decimalFloat : Scanner Unit := fun s =>
  let (negative, s) := sign s
  match decimalDigits s with
  | none => none
  | some (whole, s) =>
      let parts : Option (List Char × Int × List Char) :=
        match fraction? s with
        | some (fraction, s) =>
            match exponent? s with
            | some (exponent, s) => some (fraction, exponent, s)
            | none => some (fraction, 0, s)
        | none => (exponent? s).map fun (exponent, s) => ([], exponent, s)
      match parts with
      | none => none
      | some (fraction, exponent, s) =>
          if !negative && overflows (whole ++ fraction) (exponent - fraction.length) then none
          else some ((), s)

/-- Infinity or no number, with a sign or without. -/
def specialFloat : Scanner Unit := fun s =>
  match (sign s).2 with
  | 'i' :: 'n' :: 'f' :: rest => some ((), rest)
  | 'n' :: 'a' :: 'n' :: rest => some ((), rest)
  | _ => none

/-! ## Dates -/

/-- A number of exactly two digits in a range. -/
def twoDigits (low high : Nat) : Scanner Nat
  | c :: d :: rest =>
      if c.isDigit && d.isDigit then
        let value := (c.toNat - 48) * 10 + (d.toNat - 48)
        if low ≤ value ∧ value ≤ high then some (value, rest) else none
      else none
  | _ => none

def daysIn (year month : Nat) : Nat :=
  if month = 2 then
    if year % 4 = 0 ∧ (year % 100 ≠ 0 ∨ year % 400 = 0) then 29 else 28
  else if month = 4 ∨ month = 6 ∨ month = 9 ∨ month = 11 then 30
  else 31

/-- The text after a character. -/
def after? (c : Char) : List Char → Option (List Char)
  | c' :: rest => if c' = c then some rest else none
  | [] => none

def day : Scanner Unit := fun s => do
  let (century, s) ← twoDigits 0 99 s
  let (year, s) ← twoDigits 0 99 s
  let s ← after? '-' s
  let (month, s) ← twoDigits 1 12 s
  let s ← after? '-' s
  let (day, s) ← twoDigits 1 31 s
  if day ≤ daysIn (century * 100 + year) month then some ((), s) else none

/-- The text after a fraction of a second, if there is one. -/
def skipFraction : List Char → List Char
  | '.' :: c :: rest => if c.isDigit then rest.dropWhile Char.isDigit else '.' :: c :: rest
  | s => s

def time : Scanner Unit := fun s => do
  let (_, s) ← twoDigits 0 23 s
  let s ← after? ':' s
  let (_, s) ← twoDigits 0 59 s
  let s ← after? ':' s
  let (_, s) ← twoDigits 0 60 s
  some ((), skipFraction s)

/-- The text after the offset of a time zone, if there is one. -/
def skipOffset (s : List Char) : List Char :=
  match s with
  | [] => s
  | c :: rest =>
      if c = 'Z' ∨ c = 'z' then rest
      else if c = '+' ∨ c = '-' then
        let offset : Option (List Char) := do
          let (_, s) ← twoDigits 0 23 rest
          let s ← after? ':' s
          let (_, s) ← twoDigits 0 59 s
          some s
        offset.getD s
      else s

/-- A day, a time, or both with or without an offset. -/
def date : Scanner Unit := fun s =>
  match day s with
  | some (_, s) =>
      match s with
      | [] => some ((), s)
      | c :: rest =>
          if c = 'T' ∨ c = 't' ∨ c = ' ' then
            match time rest with
            | some (_, rest) => some ((), skipOffset rest)
            | none => some ((), s)
          else some ((), s)
  | none => time s

/-- What begins with a sign or a digit. -/
def number : Scanner Toml := fun s =>
  ((date s).map fun (_, s) => (Toml.date, s)) <|>
    ((decimalFloat s).map fun (_, s) => (Toml.float, s)) <|>
    ((specialFloat s).map fun (_, s) => (Toml.float, s)) <|>
    ((integer s).map fun (value, s) => (Toml.integer value, s))

end Scan

end TreeCursor.Toml
