import TreeCursor.Term.Basic
import TreeCursor.Text.Literal
import TreeCursor.Zipper.Render

/-!
# Texts of terms

A notation for readers, and one that names the constructors.
-/

namespace TreeCursor.Term

/-- An integer in decimal. -/
def intText (value : Int64) : List Char :=
  (toString value.toInt).toList

mutual

/-- The notation for readers. -/
def formatted : Term → List Char
  | .call tag args => tag.toList ++ '(' :: (formattedItems ',' args ++ [')'])
  | .pair left right => '\x7b' :: (formatted left ++ ',' :: ' ' :: (formatted right ++ ['\x7d']))
  | .block items => '(' :: (formattedItems ';' items ++ [')'])
  | .list items => '[' :: (formattedItems ',' items ++ [']'])
  | .atom name => ':' :: name.toList
  | .int value => intText value
  | .str value => Text.literal value

/-- Terms with a mark and a space between them. -/
def formattedItems (mark : Char) : List Term → List Char
  | [] => []
  | [item] => formatted item
  | item :: items => formatted item ++ mark :: ' ' :: formattedItems mark items

end

mutual

/-- The notation that names the constructors. -/
def constructors : Term → List Char
  | .call tag args =>
      "Call \x7b tag: ".toList ++ Text.literal tag ++ ", args: [".toList ++ constructorItems args ++
        [']', ' ', '\x7d']
  | .pair left right =>
      "Pair(".toList ++ constructors left ++ ',' :: ' ' :: (constructors right ++ [')'])
  | .block items => "Block([".toList ++ constructorItems items ++ [']', ')']
  | .list items => "List([".toList ++ constructorItems items ++ [']', ')']
  | .atom name => "Atom(".toList ++ Text.literal name ++ [')']
  | .int value => "Int(".toList ++ intText value ++ [')']
  | .str value => "Str(".toList ++ Text.literal value ++ [')']

def constructorItems : List Term → List Char
  | [] => []
  | [item] => constructors item
  | item :: items => constructors item ++ ',' :: ' ' :: constructorItems items

end

instance : Shown Term where
  formatted term := String.ofList term.formatted
  raw term := String.ofList term.constructors

end TreeCursor.Term
