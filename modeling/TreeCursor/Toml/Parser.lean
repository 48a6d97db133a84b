import TreeCursor.Toml.Scalar

/-!
# Reading TOML documents

A document is a sequence of lines: blank ones, comments, headers that open a table, and keys with
their values, which go into the table opened last.
-/

namespace TreeCursor.Toml

open Scan (skipSpace newline? isVisible lineString specialFloat)

/-- The most arrays and inline tables that may stand in one another. -/
def maxNesting : Nat := 79

/-- The text after a comment, if one begins here. -/
def skipComment : List Char → List Char
  | '#' :: rest => rest.dropWhile isVisible
  | s => s

/-- The text after the rest of a line that holds nothing more. -/
def lineEnd? (s : List Char) : Option (List Char) :=
  match skipComment (skipSpace s) with
  | [] => some []
  | s => newline? s

/-- The text after blanks, line ends and comments, in at most so many lines. -/
def skipBlankLines : Nat → List Char → Option (List Char)
  | 0, _ => none
  | bound + 1, s =>
      match skipSpace s with
      | '#' :: rest => (newline? (rest.dropWhile isVisible)).bind (skipBlankLines bound)
      | '\n' :: rest => skipBlankLines bound rest
      | '\r' :: rest => (newline? ('\r' :: rest)).bind (skipBlankLines bound)
      | s => some s

/-! ## Keys -/

/-- Whether a character may stand in a key without quotes. -/
def isBare (c : Char) : Bool :=
  c.isAlphanum || c == '-' || c == '_'

def simpleKey (bound : Nat) : Scanner String := fun s =>
  match s with
  | '"' :: _ => lineString bound s
  | '\'' :: _ => lineString bound s
  | _ =>
      match s.takeWhile isBare with
      | [] => none
      | key => some (String.ofList key, s.dropWhile isBare)

/-- Keys with points between them and blanks around them, in at most so many parts. -/
def keyParts (bound : Nat) : Nat → Scanner (List String)
  | 0, _ => none
  | parts + 1, s =>
      match simpleKey bound (skipSpace s) with
      | none => none
      | some (key, s) =>
          match skipSpace s with
          | '.' :: rest => (keyParts bound parts rest).map fun (keys, s) => (key :: keys, s)
          | s => some ([key], s)

/-- A dotted key, as the path to its table and the key there. -/
def key (bound : Nat) : Scanner (List String × String) := fun s =>
  match keyParts bound maxNesting s with
  | none => none
  | some (keys, s) => keys.getLast?.map fun last => ((keys.dropLast, last), s)

/-! ## Values -/

/-- Values up to the end of an array, in at most so many; a comma may follow the last. -/
def arrayItems (value : Scanner Toml) (bound : Nat) : Nat → Scanner (List Toml)
  | 0, _ => none
  | count + 1, s =>
      match skipBlankLines bound s with
      | none => none
      | some (']' :: s) => some ([], s)
      | some s =>
          match value s with
          | none => none
          | some (item, s) =>
              match skipBlankLines bound s with
              | some (',' :: s) =>
                  (arrayItems value bound count s).map fun (items, s) => (item :: items, s)
              | some (']' :: s) => some ([item], s)
              | _ => none

/-- A key and its value. -/
def pair (value : Scanner Toml) (bound : Nat) : Scanner (List String × String × Toml) := fun s =>
  match key bound s with
  | some ((path, key), '=' :: s) =>
      (value (skipSpace s)).map fun (value, s) => ((path, key, value), s)
  | _ => none

/-- Keys and values up to the end of an inline table, in at most so many; all on one line. -/
def tableItems (value : Scanner Toml) (bound : Nat) :
    Nat → Scanner (List (List String × String × Toml))
  | 0, _ => none
  | count + 1, s =>
      match pair value bound s with
      | none => none
      | some (item, s) =>
          match skipSpace s with
          | ',' :: s => (tableItems value bound count s).map fun (items, s) => (item :: items, s)
          | '\x7d' :: s => some ([item], s)
          | _ => none

/-- The rest of an inline table after its brace. -/
def inlineTable (value : Scanner Toml) (bound : Nat) : Scanner Toml := fun s =>
  match skipSpace s with
  | '\x7d' :: s => some (.table [], s)
  | s =>
      match tableItems value bound bound s with
      | none => none
      | some (pairs, s) => (ofPairs? pairs).map fun table => (table, s)

def startsNumber (c : Char) : Bool :=
  c.isDigit || c == '+' || c == '-'

/-- A value in at most so many arrays and inline tables. -/
def value (bound : Nat) (nesting : Nat) : Scanner Toml := fun s =>
  match s with
  | [] => none
  | c :: rest =>
      if c = '"' ∨ c = '\'' then
        (Scan.string bound s).map fun (text, s) => (.string text, s)
      else if c = '[' then
        match nesting with
        | 0 => none
        | nesting + 1 =>
            (arrayItems (value bound nesting) bound bound rest).map fun (items, s) =>
              (.array items, s)
      else if c = '\x7b' then
        match nesting with
        | 0 => none
        | nesting + 1 => inlineTable (value bound nesting) bound rest
      else if startsNumber c then
        Scan.number s
      else
        match s with
        | 't' :: 'r' :: 'u' :: 'e' :: rest => some (.boolean true, rest)
        | 'f' :: 'a' :: 'l' :: 's' :: 'e' :: rest => some (.boolean false, rest)
        | _ => (specialFloat s).map fun (_, s) => (.float, s)

/-! ## Lines -/

/-- The tables of a document while it is read: all that are closed, and the one that is open with
its path and whether it is an item of an array. -/
structure Reading where
  closed : Table
  current : Table
  path : List String
  inArray : Bool

namespace Reading

def start : Reading := ⟨.empty, .empty, [], false⟩

/-- The open table put among the closed ones. -/
def close? (reading : Reading) : Option Table :=
  match reading.path.getLast? with
  | none => some reading.current
  | some key =>
      (reading.closed.change? .implied (fun parent =>
        if reading.inArray then
          match parent.get? key with
          | none => some (parent.set key (.tables [reading.current.entries]), ())
          | some (.tables items) =>
              some (parent.set key (.tables (reading.current.entries :: items)), ())
          | _ => none
        else
          match parent.get? key with
          | none =>
              some (parent.set key (.table reading.current.origin reading.current.entries), ())
          | some (.table .opened _) => none
          | some (.table _ _) =>
              some (parent.set key (.table reading.current.origin reading.current.entries), ())
          | _ => none) reading.path.dropLast).map Prod.fst

/-- A header opens a table: a new one, or one that was only implied before. -/
def openTable? (reading : Reading) (path : List String) : Option Reading :=
  match reading.close?, path.getLast? with
  | some closed, some key =>
      (closed.change? .implied (fun parent =>
        match parent.get? key with
        | none => some (parent, [])
        | some (.table .implied entries) => some (parent.erase key, entries)
        | _ => none) path.dropLast).map fun (closed, entries) =>
            ⟨closed, ⟨.opened, entries⟩, path, false⟩
  | _, _ => none

/-- A header in double brackets opens a new table at the end of an array of tables. -/
def openItem? (reading : Reading) (path : List String) : Option Reading :=
  match reading.close?, path.getLast? with
  | some closed, some key =>
      (closed.change? .implied (fun parent =>
        match parent.get? key with
        | none => some (parent, ())
        | some (.tables _) => some (parent, ())
        | _ => none) path.dropLast).map fun (closed, _) => ⟨closed, .empty, path, true⟩
  | _, _ => none

end Reading

/-- The path between the brackets of a header, and the text after its line. -/
def header (bound : Nat) (closing : List Char) : Scanner (List String) := fun s =>
  match key bound s with
  | none => none
  | some ((path, key), s) =>
      if closing.isPrefixOf s then
        (lineEnd? (s.drop closing.length)).map fun s => (path ++ [key], s)
      else
        none

/-- The lines of a document, in at most so many. -/
def lines (bound : Nat) : Nat → Reading → List Char → Option Reading
  | 0, _, _ => none
  | count + 1, reading, s =>
      match skipSpace s with
      | [] => some reading
      | '#' :: rest => (lineEnd? ('#' :: rest)).bind (lines bound count reading)
      | '\n' :: rest => lines bound count reading rest
      | '\r' :: rest => (newline? ('\r' :: rest)).bind (lines bound count reading)
      | '[' :: '[' :: rest => do
          let (path, rest) ← header bound [']', ']'] rest
          let reading ← reading.openItem? path
          lines bound count reading rest
      | '[' :: rest => do
          let (path, rest) ← header bound [']'] rest
          let reading ← reading.openTable? path
          lines bound count reading rest
      | s => do
          let ((path, key, value), rest) ← pair (value bound maxNesting) bound s
          let rest ← lineEnd? rest
          let current ← reading.current.insert? path key value
          lines bound count { reading with current := current } rest

/-- The text without the mark of its byte order. -/
def skipByteOrderMark : List Char → List Char
  | c :: rest => if c.toNat = 0xfeff then rest else c :: rest
  | [] => []

/-- The entries of the document that a text holds. -/
def parse? (text : String) : Option (List (String × Toml)) :=
  let s := skipByteOrderMark text.toList
  let bound := s.length + 1
  ((lines bound bound .start s).bind Reading.close?).map fun table => finishEntries table.entries

end TreeCursor.Toml
