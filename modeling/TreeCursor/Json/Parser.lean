import TreeCursor.Json.Document
import TreeCursor.Json.Quoted

/-!
# Reading JSON texts

One grammar with several readings.  A reading says what becomes of the parts of the syntax: the
reading of documents builds a value and refuses numbers without one, skimming passes over a value
whose content does not matter.  A text has ended too early when it is the start of some text that
could be read; all other faults make it malformed.
-/

namespace TreeCursor

/-- A reader of the start of a text, which leaves the rest. -/
abbrev Parser (β : Type) : Type :=
  List Char → Except ParseError (β × List Char)

namespace Json

/-- The most arrays and objects that may stand in one another. -/
def maxNesting : Nat := 127

def isSpace (c : Char) : Bool :=
  c == ' ' || c == '\n' || c == '\t' || c == '\r'

def skipSpace (s : List Char) : List Char :=
  s.dropWhile isSpace

/-- The text after the given characters. -/
def word : List Char → List Char → Except ParseError (List Char)
  | [], s => .ok s
  | _ :: _, [] => .error .endOfText
  | expected :: word', c :: s => if c = expected then word word' s else .error .malformed

/-- The error where something else is expected before a text. -/
def unexpected : List Char → ParseError
  | [] => .endOfText
  | _ :: _ => .malformed

/-- The values of the decimal digits that a text begins with. -/
def digits (s : List Char) : List Nat × List Char :=
  ((s.takeWhile Char.isDigit).map fun c => c.toNat - 48, s.dropWhile Char.isDigit)

/-- The digits of an integer: a zero stands alone. -/
def wholePart (s : List Char) : Except ParseError (List Nat × List Char) :=
  match s with
  | '0' :: rest =>
      match rest with
      | c :: _ => if c.isDigit then .error .malformed else .ok ([0], rest)
      | [] => .ok ([0], rest)
  | _ =>
      match digits s with
      | ([], rest) => .error (unexpected rest)
      | (whole, rest) => .ok (whole, rest)

/-- The digits after a point, if one follows. -/
def fractionPart (s : List Char) : Except ParseError (Option (List Nat) × List Char) :=
  match s with
  | '.' :: rest =>
      match digits rest with
      | ([], rest) => .error (unexpected rest)
      | (fraction, rest) => .ok (some fraction, rest)
  | _ => .ok (none, s)

/-- The power of ten, if one follows. -/
def powerPart (s : List Char) : Except ParseError (Option Int × List Char) :=
  match s with
  | c :: rest =>
      if c = 'e' ∨ c = 'E' then
        let (negative, rest) :=
          match rest with
          | '+' :: rest => (false, rest)
          | '-' :: rest => (true, rest)
          | _ => (false, rest)
        match digits rest with
        | ([], rest) => .error (unexpected rest)
        | (power, rest) =>
            let value : Nat := power.foldl (fun value digit => value * 10 + digit) 0
            .ok (some (if negative then -(value : Int) else value), rest)
      else
        .ok (none, s)
  | [] => .ok (none, s)

/-- A number as it is written. -/
def literal (s : List Char) : Except ParseError (Number.Literal × List Char) :=
  let (negative, s) :=
    match s with
    | '-' :: rest => (true, rest)
    | _ => (false, s)
  match wholePart s with
  | .error e => .error e
  | .ok (whole, s) =>
      match fractionPart s with
      | .error e => .error e
      | .ok (fraction, s) =>
          match powerPart s with
          | .error e => .error e
          | .ok (power, s) => .ok (⟨negative, whole, fraction, power⟩, s)

/-- Items with commas between them up to the closing bracket; there is at least one. -/
def separated {β : Type} (close : Char) (item : Parser β) : Nat → List β → Parser (List β)
  | 0, _, _ => .error .endOfText
  | bound + 1, read, s =>
      match item s with
      | .error e => .error e
      | .ok (value, s) =>
          match skipSpace s with
          | [] => .error .endOfText
          | c :: rest =>
              if c = ',' then separated close item bound (value :: read) rest
              else if c = close then .ok ((value :: read).reverse, rest)
              else .error .malformed

/-- The items of a container after its opening bracket. -/
def contents {β : Type} (bound : Nat) (close : Char) (item : Parser β) : Parser (List β) :=
  fun s =>
    match skipSpace s with
    | [] => .error .endOfText
    | c :: rest => if c = close then .ok ([], rest) else separated close item bound [] s

/-- A key, a colon and a value. -/
def member {κ β : Type} (key : Parser κ) (value : Parser β) : Parser (κ × β) :=
  fun s =>
    match skipSpace s with
    | '"' :: s =>
        match key s with
        | .error e => .error e
        | .ok (key, s) =>
            match skipSpace s with
            | ':' :: s => (value s).map fun (value, s) => ((key, value), s)
            | s => .error (unexpected s)
    | s => .error (unexpected s)

/-- What becomes of the parts of the syntax. -/
structure Reading (κ β : Type) where
  null : β
  bool : Bool → β
  /-- A string after its first quote, in at most so many characters. -/
  text : Nat → Parser κ
  string : κ → β
  number : Number.Literal → Option β
  array : List β → β
  object : List (κ × β) → β

/-- A value, where the bound is on the length of each of its parts. -/
def value {κ β : Type} (reading : Reading κ β) (bound : Nat) (nesting : Nat) : Parser β :=
  fun s =>
    match skipSpace s with
    | [] => .error .endOfText
    | c :: rest =>
        match c with
        | 'n' => (word ['u', 'l', 'l'] rest).map fun s => (reading.null, s)
        | 't' => (word ['r', 'u', 'e'] rest).map fun s => (reading.bool true, s)
        | 'f' => (word ['a', 'l', 's', 'e'] rest).map fun s => (reading.bool false, s)
        | '"' => (reading.text bound rest).map fun (text, s) => (reading.string text, s)
        | '[' =>
            match nesting with
            | 0 => .error .malformed
            | nesting + 1 =>
                (contents bound ']' (value reading bound nesting) rest).map fun (items, s) =>
                  (reading.array items, s)
        | '\x7b' =>
            match nesting with
            | 0 => .error .malformed
            | nesting + 1 =>
                (contents bound '\x7d' (member (reading.text bound) (value reading bound nesting))
                  rest).map fun (members, s) => (reading.object members, s)
        | _ =>
            if c = '-' ∨ c.isDigit then
              match literal (c :: rest) with
              | .error e => .error e
              | .ok (written, s) =>
                  match reading.number written with
                  | none => .error .malformed
                  | some result => .ok (result, s)
            else
              .error .malformed

/-- The reading that builds a document. -/
def Reading.document : Reading String Document where
  null := .null
  bool := .bool
  text bound := unquote escaped bound []
  string := .string
  number literal := literal.value?.map .number
  array := .array
  object entries := .object (.ofList entries)

/-- The reading that passes over a value. -/
def Reading.skim : Reading Unit Unit where
  null := ()
  bool _ := ()
  text bound s := (unquote skimmedEscape bound [] s).map fun (_, s) => ((), s)
  string _ := ()
  number _ := some ()
  array _ := ()
  object _ := ()

/-- A reader of a whole text, which may end in blanks. -/
def whole {β : Type} (parser : Nat → Parser β) (s : List Char) : Except ParseError β :=
  match parser (s.length + 1) s with
  | .error e => .error e
  | .ok (value, rest) =>
      match skipSpace rest with
      | [] => .ok value
      | _ :: _ => .error .malformed

end Json

namespace Document

/-- The document that a text holds. -/
def parse (text : String) : Except ParseError Document :=
  Json.whole (fun bound => Json.value .document bound Json.maxNesting) text.toList

/-- Why bytes hold no document. -/
inductive ReadError where
  | notText
  | parse (error : ParseError)
  deriving DecidableEq, Repr

/-- The document that the bytes of a text hold. -/
def read (bytes : ByteArray) : Except ReadError Document :=
  match String.fromUTF8? bytes with
  | none => .error .notText
  | some text => (parse text).mapError .parse

end Document

end TreeCursor
