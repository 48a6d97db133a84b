import TreeCursor.Arithmetic

/-!
# Finite ordered trees

A tree type says how a node is taken apart into its children and put together again from a new
list of them.  The number of nodes comes with the type: it is determined by the children, and it
is what every descent in this library decreases.
-/

namespace TreeCursor

universe u

/-- A type of finite ordered trees.  A leaf has no children; a branch may have none either. -/
class Tree (α : Type u) where
  /-- Whether the node has a place for children. -/
  isBranch : α → Bool
  children : α → List α
  /-- A node in the shape of the first over the given children. -/
  rebuild : α → List α → α
  /-- The number of nodes, the node itself included. -/
  nodeCount : α → Nat
  nodeCount_eq (t : α) : nodeCount t = 1 + ((children t).map nodeCount).sum

namespace Tree

variable {α : Type u} [Tree α]

theorem nodeCount_pos (t : α) : 0 < nodeCount t := by
  rw [nodeCount_eq]
  omega

/-- The number of nodes in a list of trees. -/
def forestCount (ts : List α) : Nat :=
  (ts.map nodeCount).sum

@[simp]
theorem forestCount_nil : forestCount ([] : List α) = 0 := rfl

@[simp]
theorem forestCount_cons (t : α) (ts : List α) :
    forestCount (t :: ts) = nodeCount t + forestCount ts := by
  simp [forestCount]

@[simp]
theorem forestCount_append (ts us : List α) :
    forestCount (ts ++ us) = forestCount ts + forestCount us := by
  simp [forestCount]

@[simp]
theorem forestCount_reverse (ts : List α) : forestCount ts.reverse = forestCount ts := by
  induction ts with
  | nil => rfl
  | cons t ts ih => simp [ih, Nat.add_comm]

theorem nodeCount_eq_forestCount (t : α) : nodeCount t = 1 + forestCount (children t) :=
  nodeCount_eq t

/-- The nodes of a stack of trees: the top one first, each before its descendants. -/
def preorderStack : List α → List α
  | [] => []
  | t :: stack => t :: preorderStack (children t ++ stack)
termination_by stack => forestCount stack
decreasing_by
  simp only [forestCount_append, forestCount_cons, nodeCount_eq_forestCount t]
  omega

/-- All nodes of a tree, each before its descendants and children in their order. -/
def preorder (t : α) : List α :=
  preorderStack [t]

end Tree

end TreeCursor
