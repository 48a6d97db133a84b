import TreeCursor.Text.GraphemeExtend
import TreeCursor.Text.Hex
import TreeCursor.Text.Unprintable

/-!
# Text literals

A text between quotes in which every character without a shape of its own is written by its code
point, so that the literal shows what the text holds.
-/

namespace TreeCursor.Text

/-- Whether a character would join the one before it.  The half-width sound marks extend a
grapheme as well, yet they stand in a cell of their own. -/
def joinsPrevious (c : Char) : Bool :=
  isGraphemeExtend c && c != '\uff9e' && c != '\uff9f'

/-- A character as it is written in a literal. -/
def literalChar (c : Char) : List Char :=
  if c = '\x00' then ['\\', '0']
  else if c = '\t' then ['\\', 't']
  else if c = '\r' then ['\\', 'r']
  else if c = '\n' then ['\\', 'n']
  else if c = '\\' ∨ c = '"' then ['\\', c]
  else if joinsPrevious c || isUnprintable c then
    '\\' :: 'u' :: '\x7b' :: (hexDigits c.toNat ++ ['\x7d'])
  else [c]

/-- A text as a literal. -/
def literal (text : String) : List Char :=
  '"' :: (text.toList.flatMap literalChar ++ ['"'])

end TreeCursor.Text
