import TreeCursor.Json.Parser
import TreeCursor.Term.Basic

/-!
# Terms as JSON texts

A term is an object with one member, whose key names the constructor.  A call holds an object with
its tag and arguments, in either order and among members that are passed over, or else an array of
the two; a pair holds an array of two terms.
-/

namespace TreeCursor.Term

/-- A key with its colon. -/
def encodeKey (key : String) : List Char :=
  Json.quote key ++ [':']

mutual

/-- The JSON text of a term, without blanks. -/
def encode : Term → List Char
  | .call tag args =>
      '\x7b' :: (encodeKey "call" ++ '\x7b' :: (encodeKey "tag" ++ Json.quote tag ++ ',' ::
        (encodeKey "args" ++ '[' :: (encodeItems args ++ [']', '\x7d', '\x7d']))))
  | .pair left right =>
      '\x7b' :: (encodeKey "pair" ++ '[' ::
        (encode left ++ ',' :: (encode right ++ [']', '\x7d'])))
  | .block items => '\x7b' :: (encodeKey "block" ++ '[' :: (encodeItems items ++ [']', '\x7d']))
  | .list items => '\x7b' :: (encodeKey "list" ++ '[' :: (encodeItems items ++ [']', '\x7d']))
  | .atom name => '\x7b' :: (encodeKey "atom" ++ Json.quote name ++ ['\x7d'])
  | .int value => '\x7b' :: (encodeKey "int" ++ (toString value.toInt).toList ++ ['\x7d'])
  | .str value => '\x7b' :: (encodeKey "str" ++ Json.quote value ++ ['\x7d'])

def encodeItems : List Term → List Char
  | [] => []
  | [item] => encode item
  | item :: items => encode item ++ ',' :: encodeItems items

end

/-- The text after a character that stands there, perhaps after blanks. -/
def mark (c : Char) (s : List Char) : Except ParseError (List Char) :=
  match Json.skipSpace s with
  | [] => .error .endOfText
  | c' :: rest => if c' = c then .ok rest else .error .malformed

/-- A string. -/
def quoted (bound : Nat) : Parser String := fun s =>
  match mark '"' s with
  | .error e => .error e
  | .ok s => Json.unquote Json.escaped bound [] s

/-- A key with its colon. -/
def key (bound : Nat) : Parser String := fun s =>
  match quoted bound s with
  | .error e => .error e
  | .ok (key, s) => (mark ':' s).map fun s => (key, s)

/-- An integer of the signed 64-bit range. -/
def integer : Parser Int64 := fun s =>
  match Json.literal (Json.skipSpace s) with
  | .error e => .error e
  | .ok (literal, s) =>
      match literal.int? with
      | some (.int value _) =>
          if value < 2 ^ 63 then .ok (Int64.ofInt value, s) else .error .malformed
      | _ => .error .malformed

/-- An array. -/
def sequence (bound : Nat) (item : Parser Term) : Parser (List Term) := fun s =>
  match mark '[' s with
  | .error e => .error e
  | .ok s => Json.contents bound ']' item s

/-- A member of a call. -/
inductive Field where
  | tag (tag : String)
  | args (args : List Term)
  | other

def field (bound : Nat) (args : Parser (List Term)) : Parser Field := fun s =>
  match key bound s with
  | .error e => .error e
  | .ok (key, s) =>
      match key with
      | "tag" => (quoted bound s).map fun (tag, s) => (.tag tag, s)
      | "args" => (args s).map fun (args, s) => (.args args, s)
      | _ => (Json.value .skim bound bound s).map fun (_, s) => (.other, s)

/-- The tag and the arguments of a call, if each comes once. -/
def callOfFields? (fields : List Field) : Option Term :=
  let tags := fields.filterMap fun
    | .tag tag => some tag
    | _ => none
  let args := fields.filterMap fun
    | .args args => some args
    | _ => none
  match tags, args with
  | [tag], [args] => some (.call tag args)
  | _, _ => none

/-- A tag and arguments as the two items of an array, after its bracket. -/
def callItems (bound : Nat) (args : Parser (List Term)) : Parser Term := fun s =>
  match quoted bound s with
  | .error e => .error e
  | .ok (tag, s) =>
      match mark ',' s with
      | .error e => .error e
      | .ok s =>
          match args s with
          | .error e => .error e
          | .ok (args, s) => (mark ']' s).map fun s => (.call tag args, s)

/-- What a call holds. -/
def callBody (bound : Nat) (args : Parser (List Term)) : Parser Term := fun s =>
  match Json.skipSpace s with
  | '[' :: s => callItems bound args s
  | '\x7b' :: s =>
      match Json.contents bound '\x7d' (field bound args) s with
      | .error e => .error e
      | .ok (fields, s) =>
          match callOfFields? fields with
          | some term => .ok (term, s)
          | none => .error .malformed
  | s => .error (Json.unexpected s)

/-- What the member of a term holds, by its key. -/
def body (bound : Nat) (items args : Parser (List Term)) (key : String) : Parser Term := fun s =>
  match key with
  | "call" => callBody bound args s
  | "pair" =>
      match items s with
      | .error e => .error e
      | .ok ([left, right], s) => .ok (.pair left right, s)
      | .ok _ => .error .malformed
  | "block" => (items s).map fun (items, s) => (.block items, s)
  | "list" => (items s).map fun (items, s) => (.list items, s)
  | "atom" => (quoted bound s).map fun (name, s) => (.atom name, s)
  | "int" => (integer s).map fun (value, s) => (.int value, s)
  | "str" => (quoted bound s).map fun (value, s) => (.str value, s)
  | _ => .error .malformed

/-- A term, where `items` reads what a pair, a block or a list holds and `args` the arguments of a
call. -/
def object (bound : Nat) (items args : Parser (List Term)) : Parser Term := fun s =>
  match mark '\x7b' s with
  | .error e => .error e
  | .ok s =>
      match key bound s with
      | .error e => .error e
      | .ok (key, s) =>
          match body bound items args key s with
          | .error e => .error e
          | .ok (term, s) => (mark '\x7d' s).map fun s => (term, s)

/-- What is nested too deeply. -/
def tooDeep {β : Type} : Parser β := fun _ =>
  .error .malformed

mutual

/-- A term in at most so many arrays and objects. -/
def term (bound : Nat) : Nat → Parser Term
  | 0 => tooDeep
  | 1 => object bound tooDeep tooDeep
  | nesting + 2 => object bound (items bound (nesting + 1)) (items bound nesting)

/-- An array of terms in at most so many arrays and objects. -/
def items (bound : Nat) : Nat → Parser (List Term)
  | 0 => tooDeep
  | nesting + 1 => sequence bound (term bound nesting)

end

/-- The term that a text holds. -/
def parse (text : String) : Except ParseError Term :=
  Json.whole (fun bound => term bound Json.maxNesting) text.toList

end TreeCursor.Term
