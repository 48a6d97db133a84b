import TreeCursor.Zipper.Basic

/-!
# Edits at the cursor

Every edit changes the focus or its siblings and leaves the frames above alone; the ancestors see
it when the cursor goes up.  The edits that need a parent are refused at the root.
-/

namespace TreeCursor

universe u

/-- The edits that the root of a tree does not admit. -/
inductive RootEdit where
  | remove
  | insertLeft
  | insertRight
  deriving DecidableEq, Repr

def RootEdit.name : RootEdit → String
  | .remove => "remove"
  | .insertLeft => "insert_left"
  | .insertRight => "insert_right"

/-- Why an edit is refused. -/
inductive EditError where
  | atRoot (edit : RootEdit)
  deriving DecidableEq, Repr

def EditError.message : EditError → String
  | .atRoot edit => "cannot " ++ edit.name ++ " at the root of the tree"

namespace Zipper

variable {α : Type u}

/-- Another node in place of the focus. -/
def replace (z : Zipper α) (node : α) : Zipper α :=
  ⟨node, z.path⟩

def update (z : Zipper α) (f : α → α) : Zipper α :=
  z.replace (f z.focus)

/-- A new sibling directly before the focus. -/
def insertLeft (z : Zipper α) (node : α) : Except EditError (Zipper α) :=
  match z.path with
  | [] => .error (.atRoot .insertLeft)
  | frame :: rest => .ok ⟨z.focus, ⟨frame.parent, frame.left.push node, frame.right⟩ :: rest⟩

/-- A new sibling directly after the focus. -/
def insertRight (z : Zipper α) (node : α) : Except EditError (Zipper α) :=
  match z.path with
  | [] => .error (.atRoot .insertRight)
  | frame :: rest => .ok ⟨z.focus, ⟨frame.parent, frame.left, frame.right.push node⟩ :: rest⟩

variable [Tree α]

/-- The focus and all below it taken out.  The cursor goes to the position before it in
pre-order: the deepest last descendant of the previous sibling, or else the parent. -/
def remove (z : Zipper α) : Except EditError (Zipper α) :=
  match z.path with
  | [] => .error (.atRoot .remove)
  | frame :: rest =>
      match frame.left.pop? with
      | some (node, left) =>
          .ok (deepestRightmost ⟨node, ⟨frame.parent, left, frame.right⟩ :: rest⟩)
      | none => .ok ⟨Tree.rebuild frame.parent frame.right.toList, rest⟩

/-- A new first child of the focus. -/
def insertChild (z : Zipper α) (node : α) : Zipper α :=
  z.replace (Tree.rebuild z.focus (node :: Tree.children z.focus))

/-- A new last child of the focus. -/
def appendChild (z : Zipper α) (node : α) : Zipper α :=
  z.replace (Tree.rebuild z.focus (Tree.children z.focus ++ [node]))

end Zipper

end TreeCursor
