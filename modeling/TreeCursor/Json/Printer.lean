import TreeCursor.Json.Document
import TreeCursor.Json.Quoted
import TreeCursor.Text.Literal
import TreeCursor.Zipper.Render

/-!
# Written forms of JSON values

The compact form has no blanks; the pretty form puts every item and member on a line of its own,
two spaces further in than its container.  A third form names the constructors.
-/

namespace TreeCursor

namespace Json

def boolText (value : Bool) : List Char :=
  if value then ['t', 'r', 'u', 'e'] else ['f', 'a', 'l', 's', 'e']

mutual

def compact : Json → List Char
  | .null => ['n', 'u', 'l', 'l']
  | .bool value => boolText value
  | .number value => value.text
  | .string value => quote value
  | .array items => '[' :: (compactItems items ++ [']'])
  | .object members => '\x7b' :: (compactMembers members ++ ['\x7d'])

def compactItems : List Json → List Char
  | [] => []
  | [item] => compact item
  | item :: items => compact item ++ ',' :: compactItems items

def compactMembers : List (String × Json) → List Char
  | [] => []
  | [(key, value)] => quote key ++ ':' :: compact value
  | (key, value) :: members => quote key ++ ':' :: (compact value ++ ',' :: compactMembers members)

end

/-- The start of a line that many levels in. -/
def newLine (level : Nat) : List Char :=
  '\n' :: List.replicate (2 * level) ' '

mutual

/-- The pretty form of a value that stands the given number of levels in. -/
def pretty (level : Nat) : Json → List Char
  | .null => ['n', 'u', 'l', 'l']
  | .bool value => boolText value
  | .number value => value.text
  | .string value => quote value
  | .array [] => ['[', ']']
  | .array items => '[' :: (prettyItems (level + 1) items ++ newLine level ++ [']'])
  | .object [] => ['\x7b', '\x7d']
  | .object members =>
      '\x7b' :: (prettyMembers (level + 1) members ++ newLine level ++ ['\x7d'])

def prettyItems (level : Nat) : List Json → List Char
  | [] => []
  | [item] => newLine level ++ pretty level item
  | item :: items => newLine level ++ (pretty level item ++ ',' :: prettyItems level items)

def prettyMembers (level : Nat) : List (String × Json) → List Char
  | [] => []
  | [(key, value)] => newLine level ++ (quote key ++ ':' :: ' ' :: pretty level value)
  | (key, value) :: members =>
      newLine level ++
        (quote key ++ ':' :: ' ' :: (pretty level value ++ ',' :: prettyMembers level members))

end

mutual

/-- The form that names the constructors. -/
def constructors : Json → List Char
  | .null => "Null".toList
  | .bool value => "Bool(".toList ++ boolText value ++ [')']
  | .number value => "Number(".toList ++ value.text ++ [')']
  | .string value => "String(".toList ++ Text.literal value ++ [')']
  | .array items => "Array [".toList ++ constructorItems items ++ [']']
  | .object members => "Object \x7b".toList ++ constructorMembers members ++ ['\x7d']

def constructorItems : List Json → List Char
  | [] => []
  | [item] => constructors item
  | item :: items => constructors item ++ ',' :: ' ' :: constructorItems items

def constructorMembers : List (String × Json) → List Char
  | [] => []
  | [(key, value)] => Text.literal key ++ ':' :: ' ' :: constructors value
  | (key, value) :: members =>
      Text.literal key ++
        ':' :: ' ' :: (constructors value ++ ',' :: ' ' :: constructorMembers members)

end

end Json

namespace Document

/-- The text of a document without blanks. -/
def compact (document : Document) : String :=
  String.ofList document.value.compact

/-- The text of a document with one item or member to a line. -/
def pretty (document : Document) : String :=
  String.ofList (document.value.pretty 0)

instance : Shown Document where
  formatted := compact
  raw document := String.ofList document.value.constructors

end Document

end TreeCursor
