import TreeCursor.Siblings
import TreeCursor.Tree

/-!
# Zippers

A zipper is a cursor in a tree: the node in focus and the path of frames above it, innermost
first.  A frame keeps the parent as it was when the cursor went down, and the siblings on both
sides as they are now.  Going up fills the frame, which is where pending edits reach the parent.
-/

namespace TreeCursor

universe u

/-- One level of the way down: the parent as it was left, and the siblings, nearest first. -/
structure Frame (α : Type u) where
  parent : α
  left : Siblings α
  right : Siblings α

/-- The parent rebuilt around a node that takes the place of the hole. -/
def Frame.fill {α : Type u} [Tree α] (frame : Frame α) (node : α) : α :=
  Tree.rebuild frame.parent (frame.left.toList.reverse ++ node :: frame.right.toList)

instance {α : Type u} [BEq α] : BEq (Frame α) where
  beq f g := f.left == g.left && f.right == g.right && f.parent == g.parent

/-- A cursor in a tree. -/
structure Zipper (α : Type u) where
  focus : α
  path : List (Frame α)

/-- Zippers are compared by focus and by all that their frames hold, parents as they were left. -/
instance {α : Type u} [BEq α] : BEq (Zipper α) where
  beq z w := z.focus == w.focus && z.path == w.path

namespace Zipper

variable {α : Type u}

/-- The cursor at the root of a tree. -/
def ofTree (tree : α) : Zipper α :=
  ⟨tree, []⟩

def isRoot (z : Zipper α) : Bool :=
  z.path.isEmpty

def hasLeft (z : Zipper α) : Bool :=
  match z.path with
  | [] => false
  | frame :: _ => !frame.left.isEmpty

def hasRight (z : Zipper α) : Bool :=
  match z.path with
  | [] => false
  | frame :: _ => !frame.right.isEmpty

/-- The number of ancestors. -/
def depth (z : Zipper α) : Nat :=
  z.path.length

/-- The number of siblings before the focus. -/
def index (z : Zipper α) : Nat :=
  match z.path with
  | [] => 0
  | frame :: _ => frame.left.length

/-- The child indices that lead from the root to the focus. -/
def route (z : Zipper α) : List Nat :=
  (z.path.map fun frame => frame.left.length).reverse

/-- The siblings before the focus, in tree order. -/
def lefts (z : Zipper α) : List α :=
  match z.path with
  | [] => []
  | frame :: _ => frame.left.toList.reverse

/-- The siblings after the focus, in tree order. -/
def rights (z : Zipper α) : List α :=
  match z.path with
  | [] => []
  | frame :: _ => frame.right.toList

/-- The previous sibling. -/
def left (z : Zipper α) : Option (Zipper α) :=
  match z.path with
  | [] => none
  | frame :: rest =>
      match frame.left.pop? with
      | none => none
      | some (node, left) => some ⟨node, ⟨frame.parent, left, frame.right.push z.focus⟩ :: rest⟩

/-- The next sibling. -/
def right (z : Zipper α) : Option (Zipper α) :=
  match z.path with
  | [] => none
  | frame :: rest =>
      match frame.right.pop? with
      | none => none
      | some (node, right) => some ⟨node, ⟨frame.parent, frame.left.push z.focus, right⟩ :: rest⟩

/-- The first sibling, or the same place where there is none before. -/
def leftmost (z : Zipper α) : Zipper α :=
  match z.path with
  | [] => z
  | frame :: rest =>
      match frame.left.toList.reverse with
      | [] => z
      | first :: between =>
          ⟨first,
            ⟨frame.parent, .empty, .ofList (between ++ z.focus :: frame.right.toList)⟩ :: rest⟩

/-- The last sibling, or the same place where there is none after. -/
def rightmost (z : Zipper α) : Zipper α :=
  match z.path with
  | [] => z
  | frame :: rest =>
      match frame.right.toList.reverse with
      | [] => z
      | last :: between =>
          ⟨last, ⟨frame.parent, .ofList (between ++ z.focus :: frame.left.toList), .empty⟩ :: rest⟩

variable [Tree α]

/-- The first child. -/
def down (z : Zipper α) : Option (Zipper α) :=
  if Tree.isBranch z.focus then
    match Tree.children z.focus with
    | [] => none
    | first :: others => some ⟨first, ⟨z.focus, .empty, .ofList others⟩ :: z.path⟩
  else
    none

/-- The parent, rebuilt from the focus and its siblings. -/
def up (z : Zipper α) : Option (Zipper α) :=
  match z.path with
  | [] => none
  | frame :: rest => some ⟨frame.fill z.focus, rest⟩

/-- The tree that the cursor stands in, all pending edits included. -/
def root (z : Zipper α) : α :=
  z.path.foldl (fun node frame => frame.fill node) z.focus

/-- The root of the tree. -/
def top (z : Zipper α) : Zipper α :=
  ofTree z.root

theorem nodeCount_focus_rightmost_down {z child : Zipper α} (h : z.down = some child) :
    Tree.nodeCount child.rightmost.focus < Tree.nodeCount z.focus := by
  simp only [down] at h
  split at h
  · split at h
    · contradiction
    · next first others hc =>
        cases h
        rw [Tree.nodeCount_eq_forestCount z.focus, hc, Tree.forestCount_cons]
        simp only [rightmost, Siblings.toList_ofList]
        split
        · simp only
          omega
        · next last between hr =>
            have hsum := congrArg Tree.forestCount hr
            simp only [Tree.forestCount_reverse, Tree.forestCount_cons] at hsum
            simp only
            omega
  · contradiction

/-- The node reached by going to the last child as long as there is one. -/
def deepestRightmost (z : Zipper α) : Zipper α :=
  match _h : z.down with
  | none => z
  | some child => child.rightmost.deepestRightmost
termination_by Tree.nodeCount z.focus
decreasing_by exact nodeCount_focus_rightmost_down _h

end Zipper

end TreeCursor
