import TreeCursor.Text.Alphanumeric
import TreeCursor.Text.Blank
import TreeCursor.Text.Choice
import TreeCursor.Text.Hex

/-!
# Patterns for field values

Which texts can stand for the values of a field: numbers, and regular expressions that need no
table of Unicode.  Single characters may be any, but the classes of digits, blanks and word
characters, the ends of words and the disregard of letter case are there for ASCII only, that is
where the flag `u` is off; so are back references, looking around and counted repetitions not at
all.
-/

namespace TreeCursor.Pattern

structure Flags where
  ignoreCase : Bool := false
  unicode : Bool := true
  /-- Whether blanks and comments are passed over. -/
  spaced : Bool := false
  deriving DecidableEq, Repr

/-- The text after blanks and comments; a comment goes on to the end of its line. -/
def skipSpaced (inComment : Bool) : List Char → List Char
  | [] => []
  | c :: rest =>
      if inComment then skipSpaced (c != '\n') rest
      else if Text.isBlank c then skipSpaced false rest
      else if c = '#' then skipSpaced true rest
      else c :: rest

def skip (flags : Flags) (s : List Char) : List Char :=
  if flags.spaced then skipSpaced false s else s

/-- Whether a character may stand for itself. -/
def admitsLiteral (flags : Flags) : Bool :=
  !(flags.ignoreCase && flags.unicode)

/-! ## Escapes -/

/-- What an escape stands for. -/
inductive Escape where
  | char (c : Char)
  /-- The digits, the blanks or the word characters of ASCII. -/
  | asciiClass
  /-- A place between characters. -/
  | place
  deriving DecidableEq, Repr

/-- An escape after its backslash. -/
def escape (flags : Flags) : List Char → Option (Escape × List Char)
  | [] => none
  | c :: rest =>
      match c with
      | 'x' =>
          (Text.hexChar? 2 rest).bind fun (c, rest) =>
            if flags.unicode || c.toNat < 0x80 then some (.char c, rest) else none
      | 'u' => (Text.hexChar? 4 rest).map fun (c, rest) => (.char c, rest)
      | 'U' => (Text.hexChar? 8 rest).map fun (c, rest) => (.char c, rest)
      | 'a' => some (.char '\x07', rest)
      | 'f' => some (.char '\x0c', rest)
      | 't' => some (.char '\t', rest)
      | 'n' => some (.char '\n', rest)
      | 'r' => some (.char '\r', rest)
      | 'v' => some (.char '\x0b', rest)
      | 'A' => some (.place, rest)
      | 'z' => some (.place, rest)
      | _ =>
          if ['d', 's', 'w'].contains c then
            if flags.unicode then none else some (.asciiClass, rest)
          else if ['b', 'B', '<', '>'].contains c then
            if flags.unicode then none else some (.place, rest)
          else if c.toNat < 0x80 && !c.isAlphanum then
            some (.char c, rest)
          else
            none

/-! ## Classes in brackets -/

/-- The names of the classes between colons. -/
def classNames : List (List Char) :=
  ["alnum", "alpha", "ascii", "blank", "cntrl", "digit", "graph", "lower", "print", "punct",
    "space", "upper", "word", "xdigit"].map String.toList

/-- The text after a class between colons, and whether it is negated, after its bracket. -/
def namedClass? : List Char → Option (Bool × List Char)
  | ':' :: rest =>
      let negated := rest.head? == some '^'
      let rest := if negated then rest.drop 1 else rest
      match rest.dropWhile (· != ':') with
      | ':' :: ']' :: after =>
          if classNames.contains (rest.takeWhile (· != ':')) then some (negated, after) else none
      | _ => none
  | _ => none

/-- The text after the start of a class: a negation, hyphens, and a bracket that does not close a
class with nothing in it. -/
def openClass (flags : Flags) (s : List Char) : Option (List Char) :=
  let s := skip flags s
  let negated := s.head? == some '^'
  let s := if negated then skip flags (s.drop 1) else s
  let hyphens := s.takeWhile (· == '-')
  let s := skip flags (s.dropWhile (· == '-'))
  if negated && !flags.unicode then none
  else
    match hyphens, s with
    | [], ']' :: rest => some rest
    | _, s => some s

/-- A character of a class, or a class within it. -/
def classItem (flags : Flags) : List Char → Option (Escape × List Char)
  | [] => none
  | '\\' :: rest => escape flags rest
  | c :: rest => if flags.unicode || c.toNat < 0x80 then some (.char c, rest) else none

/-- The text after an item of a class or a range of characters. -/
def classRange (flags : Flags) (s : List Char) : Option (List Char) :=
  match classItem flags s with
  | none => none
  | some (.place, _) => none
  | some (first, rest) =>
      match skip flags rest with
      | [] => none
      | '-' :: after =>
          match skip flags after with
          | [] => none
          | ']' :: _ => some ('-' :: after)
          | '-' :: _ => some ('-' :: after)
          | after =>
              match first, classItem flags after with
              | .char first, some (.char last, rest) => if first ≤ last then some rest else none
              | _, _ => none
      | rest => some rest

/-- The text after a class, in at most so many steps, with the number of classes around it. -/
def classBody (flags : Flags) : Nat → Nat → List Char → Option (List Char)
  | 0, _, _ => none
  | bound + 1, depth, s =>
      match skip flags s with
      | [] => none
      | ']' :: rest =>
          match depth with
          | 0 => some rest
          | depth + 1 => classBody flags bound depth rest
      | '[' :: rest =>
          match namedClass? rest with
          | some (negated, rest) =>
              if negated && !flags.unicode then none else classBody flags bound depth rest
          | none => (openClass flags rest).bind (classBody flags bound (depth + 1))
      | '&' :: '&' :: rest => classBody flags bound depth rest
      | '-' :: '-' :: rest => classBody flags bound depth rest
      | '~' :: '~' :: rest => classBody flags bound depth rest
      | s => (classRange flags s).bind (classBody flags bound depth)

/-! ## Groups -/

/-- The flags with one of them on or off. -/
def setFlag? (flags : Flags) (on : Bool) : Char → Option Flags
  | 'i' => some { flags with ignoreCase := on }
  | 'u' => some { flags with unicode := on }
  | 'x' => some { flags with spaced := on }
  | 'm' => some flags
  | 's' => some flags
  | 'U' => some flags
  | 'R' => some flags
  | _ => none

/-- What follows the parenthesis that opens a group. -/
inductive Opening where
  /-- Flags for the rest of the group around. -/
  | flags (flags : Flags)
  /-- A group with flags and perhaps a name. -/
  | group (flags : Flags) (name : Option (List Char))

/-- Flags up to the colon or parenthesis after them.  Those that were seen come last one first;
after a hyphen they are off. -/
def flagItems (flags : Flags) (seen : List Char) : List Char → Option (Opening × List Char)
  | [] => none
  | c :: rest =>
      if c = ':' then
        if seen.head? = some '-' then none else some (.group flags none, rest)
      else if c = ')' then
        if seen = [] ∨ seen.head? = some '-' then none else some (.flags flags, rest)
      else if seen.contains c then
        none
      else if c = '-' then
        flagItems flags (c :: seen) rest
      else
        match setFlag? flags (!seen.contains '-') c with
        | none => none
        | some flags => flagItems flags (c :: seen) rest

/-- Whether characters can name a group. -/
def isName : List Char → Bool
  | [] => false
  | c :: rest =>
      (c == '_' || (Text.isAlphanumeric c && !c.isDigit)) &&
        rest.all fun c => Text.isAlphanumeric c || ['_', '.', '[', ']'].contains c

/-- A name up to its bracket. -/
def groupName (flags : Flags) (s : List Char) : Option (Opening × List Char) :=
  match s.dropWhile (· != '>') with
  | [] => none
  | _ :: rest =>
      let name := s.takeWhile (· != '>')
      if isName name then some (.group flags (some name), rest) else none

/-- What follows the parenthesis that opens a group. -/
def opening (flags : Flags) (s : List Char) : Option (Opening × List Char) :=
  match skip flags s with
  | '?' :: 'P' :: '<' :: rest => groupName flags rest
  | '?' :: '<' :: rest => groupName flags rest
  | '?' :: rest => flagItems flags [] rest
  | s => some (.group flags none, s)

/-! ## Expressions -/

/-- Whether a text is the rest of a regular expression, in at most so many steps.  The flags of
the groups around are kept, innermost first, and the names of all groups so far; a repetition
needs something before it. -/
def isExpression : Nat → Flags → List Flags → List (List Char) → Bool → List Char → Bool
  | 0, _, _, _, _, _ => false
  | bound + 1, flags, around, names, repeatable, s =>
      match skip flags s with
      | [] => around.isEmpty
      | c :: rest =>
          match c with
          | '(' =>
              match opening flags rest with
              | none => false
              | some (.flags flags, rest) => isExpression bound flags around names false rest
              | some (.group inner none, rest) =>
                  isExpression bound inner (flags :: around) names false rest
              | some (.group inner (some name), rest) =>
                  !names.contains name &&
                    isExpression bound inner (flags :: around) (name :: names) false rest
          | ')' =>
              match around with
              | [] => false
              | outer :: around => isExpression bound outer around names true rest
          | '|' => isExpression bound flags around names false rest
          | '[' =>
              admitsLiteral flags &&
                match (openClass flags rest).bind (classBody flags bound 0) with
                | none => false
                | some rest => isExpression bound flags around names true rest
          | '{' => false
          | '\\' =>
              match escape flags rest with
              | none => false
              | some (.char _, rest) =>
                  admitsLiteral flags && isExpression bound flags around names true rest
              | some (_, rest) => isExpression bound flags around names true rest
          | '.' => flags.unicode && isExpression bound flags around names true rest
          | '^' => isExpression bound flags around names true rest
          | '$' => isExpression bound flags around names true rest
          | _ =>
              if ['*', '+', '?'].contains c then
                repeatable &&
                  isExpression bound flags around names true
                    (if rest.head? = some '?' then rest.drop 1 else rest)
              else
                admitsLiteral flags && isExpression bound flags around names true rest

/-- Whether a text is a number without a sign: digits with a point among or beside them, perhaps
with a power of ten, or a word for infinity or for no number. -/
def isNumeral (s : List Char) : Bool :=
  let fraction := match s.dropWhile Char.isDigit with
    | '.' :: rest => rest
    | rest => rest
  let hasDigit := (s.takeWhile Char.isDigit ++ fraction.takeWhile Char.isDigit) ≠ []
  let hasEnd := match fraction.dropWhile Char.isDigit with
    | [] => true
    | c :: rest =>
        let digits := match rest with
          | '+' :: digits => digits
          | '-' :: digits => digits
          | digits => digits
        (c == 'e' || c == 'E') && digits ≠ [] && digits.all Char.isDigit
  (hasDigit && hasEnd) ||
    ["inf", "infinity", "nan"].contains (Text.lowerAscii (String.ofList s))

end TreeCursor.Pattern

namespace TreeCursor

/-- Whether a text can be a pattern.  All numbers are regular expressions as well, but for those
with a plus sign. -/
def isPattern (text : List Char) : Bool :=
  match text with
  | '+' :: rest => Pattern.isNumeral rest
  | _ => Pattern.isExpression (text.length + 1) {} [] [] false text

end TreeCursor
