import TreeCursor.Zipper.Basic

/-!
# Showing a cursor

One line that holds the node in focus, cut to a width, between marks that tell whether it is the
root and on which sides it has siblings.
-/

namespace TreeCursor

universe u

/-- The two texts of a node: one for readers, one that names its constructors. -/
class Shown (α : Type u) where
  formatted : α → String
  raw : α → String

inductive DisplayMode where
  | formatted
  | raw
  deriving DecidableEq, Repr

/-- How a cursor is shown. -/
structure DisplayStyle where
  mode : DisplayMode := .formatted
  /-- Whether the root and the siblings are marked. -/
  markers : Bool := true
  /-- The most characters that the node may take. -/
  maxWidth : Option Nat := none
  deriving DecidableEq, Repr

/-- A text of at most the given number of characters: a longer one ends in an ellipsis. -/
def ellipsize (maxWidth : Option Nat) (text : String) : String :=
  match maxWidth with
  | none => text
  | some width =>
      if width < text.length then
        String.ofList (text.toList.take (width - 1) ++ ['…'])
      else
        text

namespace Zipper

variable {α : Type u} [Shown α]

/-- The text of the focus that a style asks for. -/
def renderNode (style : DisplayStyle) (z : Zipper α) : String :=
  ellipsize style.maxWidth <|
    match style.mode with
    | .formatted => Shown.formatted z.focus
    | .raw => Shown.raw z.focus

def render (style : DisplayStyle) (z : Zipper α) : String :=
  "#Zipper<" ++ (if style.markers && z.isRoot then "root " else "") ++
    (if style.markers && z.hasLeft then "‹ " else "") ++ z.renderNode style ++
    (if style.markers && z.hasRight then " ›" else "") ++ ">"

/-- The focus and what surrounds it, as a record. -/
def renderRaw (z : Zipper α) : String :=
  "Zipper \x7b node: " ++ Shown.raw z.focus ++ ", root: " ++ toString z.isRoot ++
    ", has_left: " ++ toString z.hasLeft ++ ", has_right: " ++ toString z.hasRight ++ " \x7d"

end Zipper

end TreeCursor
