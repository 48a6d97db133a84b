import TreeCursor.Arithmetic

/-!
# Byte positions

Parts of a text by the number of bytes before them.  A position divides a text exactly if that many
bytes are those of whole characters, so that one inside a character divides nothing.
-/

namespace TreeCursor.Text

/-- The number of bytes of a text. -/
def byteCount (text : List Char) : Nat :=
  (text.map Char.utf8Size).sum

/-- The first so many bytes of a text and the others. -/
def splitAtByte? : Nat → List Char → Option (List Char × List Char)
  | 0, text => some ([], text)
  | _ + 1, [] => none
  | position + 1, c :: text =>
      if c.utf8Size ≤ position + 1 then
        (splitAtByte? (position + 1 - c.utf8Size) text).map fun (left, right) => (c :: left, right)
      else
        none

/-- The part of a text between two positions. -/
def cut? (text : List Char) (start stop : Nat) : Option (List Char) :=
  match splitAtByte? start text with
  | none => none
  | some (_, rest) => (splitAtByte? (stop - start) rest).map Prod.fst

end TreeCursor.Text
