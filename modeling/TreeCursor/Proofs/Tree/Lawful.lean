import Mathlib.Algebra.Order.BigOperators.Group.List
import Mathlib.Algebra.Order.Group.Nat
import TreeCursor.Tree

/-!
# The laws of a tree type

What a cursor relies on when it takes nodes apart and puts them together again.  A branch keeps
the children that it is given, and taken apart and put together it is the branch that it was.  Some
branches have a shape for certain children only and fall back to another one over all others; the
second class reads every shape as the one that it falls back to.
-/

namespace TreeCursor

/-- Rebuilding keeps the children it is given, and a leaf as the first of them. -/
class LawfulTree (α : Type*) [Tree α] : Prop where
  isBranch_rebuild (node : α) (nodes : List α) : Tree.isBranch (Tree.rebuild node nodes)
  children_rebuild {node : α} (hbranch : Tree.isBranch node) (nodes : List α) :
    Tree.children (Tree.rebuild node nodes) = nodes
  children_rebuild_leaf {node : α} (hleaf : Tree.isBranch node = false) (nodes : List α) :
    Tree.children (Tree.rebuild node nodes) = node :: nodes
  children_leaf {node : α} (hleaf : Tree.isBranch node = false) : Tree.children node = []
  rebuild_children {node : α} (hbranch : Tree.isBranch node) :
    Tree.rebuild node (Tree.children node) = node
  /-- A branch that has lost its first children is rebuilt over no more children than are left to
  it as it would have been before. -/
  rebuild_rebuild_suffix {node : α} (hbranch : Tree.isBranch node) {rest nodes : List α}
    (hsuffix : rest <:+ Tree.children node) (hlength : nodes.length ≤ rest.length) :
    Tree.rebuild (Tree.rebuild node rest) nodes = Tree.rebuild node nodes

/-- A reading of trees in which no shape depends on the children. -/
class PlainTree (α : Type*) [Tree α] where
  /-- The tree with every shape read as the one that it falls back to. -/
  plain : α → α
  plain_rebuild {node : α} (hbranch : Tree.isBranch node) (nodes : List α) :
    plain (Tree.rebuild node nodes) = Tree.rebuild (plain node) (nodes.map plain)
  rebuild_rebuild_plain {node : α} (hbranch : Tree.isBranch node) (before nodes : List α) :
    Tree.rebuild (Tree.rebuild (plain node) before) nodes = Tree.rebuild (plain node) nodes

namespace Tree

variable {α : Type*} [Tree α]

theorem forestCount_children_lt (node : α) : forestCount (children node) < nodeCount node := by
  rw [nodeCount_eq_forestCount node]
  omega

theorem nodeCount_le_forestCount {node : α} {nodes : List α} (hmem : node ∈ nodes) :
    nodeCount node ≤ forestCount nodes :=
  List.le_sum_of_mem (List.mem_map_of_mem hmem)

theorem nodeCount_lt_of_mem_children {node child : α} (hchild : child ∈ children node) :
    nodeCount child < nodeCount node :=
  (nodeCount_le_forestCount hchild).trans_lt (forestCount_children_lt node)

/-- What holds of a tree as soon as it holds of its children holds of all trees. -/
theorem children_induction {motive : α → Prop}
    (hstep : ∀ node, (∀ child ∈ children node, motive child) → motive node) (node : α) :
    motive node := by
  induction hcount : nodeCount node using Nat.strongRecOn generalizing node with
  | _ count ih =>
      apply hstep
      intro child hchild
      exact ih (nodeCount child) (hcount ▸ nodeCount_lt_of_mem_children hchild) child rfl

variable [LawfulTree α]

theorem isBranch_of_children_ne_nil {node : α} (hchildren : children node ≠ []) :
    isBranch node = true := by
  by_contra hleaf
  exact hchildren (LawfulTree.children_leaf (Bool.not_eq_true _ ▸ hleaf))

end Tree

namespace PlainTree

variable {α : Type*} [Tree α] [LawfulTree α] [PlainTree α]

/-- Up to the shapes that they fall back to, branches forget the children they had. -/
theorem plain_rebuild_rebuild {node : α} (hbranch : Tree.isBranch node)
    (before : List α) {nodes others : List α} (hnodes : nodes.map plain = others.map plain) :
    plain (Tree.rebuild (Tree.rebuild node before) nodes) = plain (Tree.rebuild node others) := by
  rw [plain_rebuild (LawfulTree.isBranch_rebuild node before), plain_rebuild hbranch,
    plain_rebuild hbranch, rebuild_rebuild_plain hbranch, hnodes]

end PlainTree

end TreeCursor
