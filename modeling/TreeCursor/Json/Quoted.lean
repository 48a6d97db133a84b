import TreeCursor.Arithmetic
import TreeCursor.Text.Hex

/-!
# JSON strings

The written form of a string, and reading it back.  Writing escapes the quote, the backslash and
the control characters and nothing else.  Reading knows all escapes of the syntax; a character
outside the basic plane may come as two escapes, and half of such a pair is refused.
-/

namespace TreeCursor

/-- Why a text is not read: something stands where it may not, or the text ends too early. -/
inductive ParseError where
  | malformed
  | endOfText
  deriving DecidableEq, Repr

namespace Json

/-- Four hexadecimal digits of a code unit. -/
def hex4 (code : Nat) : List Char :=
  let digits := Text.hexDigits code
  List.replicate (4 - digits.length) '0' ++ digits

/-- A character as it is written in a string. -/
def quoteChar (c : Char) : List Char :=
  if c = '"' ∨ c = '\\' then ['\\', c]
  else if c = '\x08' then ['\\', 'b']
  else if c = '\x0c' then ['\\', 'f']
  else if c = '\n' then ['\\', 'n']
  else if c = '\r' then ['\\', 'r']
  else if c = '\t' then ['\\', 't']
  else if c.toNat < 0x20 then '\\' :: 'u' :: hex4 c.toNat
  else [c]

/-- A string as it is written. -/
def quote (text : String) : List Char :=
  '"' :: (text.toList.flatMap quoteChar ++ ['"'])

/-- The code unit of four hexadecimal digits. -/
def codeUnit? (a b c d : Char) : Option Nat :=
  match Text.hexValue? a, Text.hexValue? b, Text.hexValue? c, Text.hexValue? d with
  | some a, some b, some c, some d => some (((a * 16 + b) * 16 + c) * 16 + d)
  | _, _, _, _ => none

/-- The code unit that a text begins with.  The text has ended too early when it has less than
four bytes left, whatever they are. -/
def codeUnit : List Char → Except ParseError (Nat × List Char)
  | a :: b :: c :: d :: rest =>
      match codeUnit? a b c d with
      | some unit => .ok (unit, rest)
      | none => .error .malformed
  | short => .error (if (short.map Char.utf8Size).sum < 4 then .endOfText else .malformed)

def isLeadSurrogate (unit : Nat) : Bool :=
  0xd800 ≤ unit && unit ≤ 0xdbff

def isTrailSurrogate (unit : Nat) : Bool :=
  0xdc00 ≤ unit && unit ≤ 0xdfff

/-- The character of two surrogates. -/
def pairedChar (lead trail : Nat) : Char :=
  Char.ofNat (0x10000 + (lead - 0xd800) * 0x400 + (trail - 0xdc00))

/-- The character of the code units after `\u`; a lead surrogate asks for a trail surrogate. -/
def escapedUnits (s : List Char) : Except ParseError (Char × List Char) :=
  match codeUnit s with
  | .error e => .error e
  | .ok (unit, rest) =>
      if isTrailSurrogate unit then
        .error .malformed
      else if isLeadSurrogate unit then
        match rest with
        | [] => .error .endOfText
        | ['\\'] => .error .endOfText
        | '\\' :: 'u' :: rest =>
            match codeUnit rest with
            | .error e => .error e
            | .ok (trail, rest) =>
                if isTrailSurrogate trail then .ok (pairedChar unit trail, rest)
                else .error .malformed
        | _ => .error .malformed
      else
        .ok (Char.ofNat unit, rest)

/-- The character of an escape, after its backslash. -/
def escaped : List Char → Except ParseError (Char × List Char)
  | [] => .error .endOfText
  | 'u' :: rest => escapedUnits rest
  | c :: rest =>
      match c with
      | '"' => .ok ('"', rest)
      | '\\' => .ok ('\\', rest)
      | '/' => .ok ('/', rest)
      | 'b' => .ok ('\x08', rest)
      | 'f' => .ok ('\x0c', rest)
      | 'n' => .ok ('\n', rest)
      | 'r' => .ok ('\r', rest)
      | 't' => .ok ('\t', rest)
      | _ => .error .malformed

/-- An escape that is passed over, after its backslash: half a surrogate pair will do. -/
def skimmedEscape : List Char → Except ParseError (Char × List Char)
  | 'u' :: rest => (codeUnit rest).map fun (unit, rest) => (Char.ofNat unit, rest)
  | s => escaped s

/-- The characters of a string after its first quote, and the text after its last.  The bound is
on the number of characters; one for each character of the text is enough. -/
def unquote (escape : List Char → Except ParseError (Char × List Char)) :
    Nat → List Char → List Char → Except ParseError (String × List Char)
  | 0, _, _ => .error .endOfText
  | _ + 1, _, [] => .error .endOfText
  | bound + 1, read, c :: rest =>
      if c = '"' then
        .ok (String.ofList read.reverse, rest)
      else if c = '\\' then
        match escape rest with
        | .error e => .error e
        | .ok (c, rest) => unquote escape bound (c :: read) rest
      else if c.toNat < 0x20 then
        .error .malformed
      else
        unquote escape bound (c :: read) rest

end Json

end TreeCursor
