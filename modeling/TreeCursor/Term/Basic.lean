import TreeCursor.Tree

/-!
# Terms

Symbolic expressions.  Calls, pairs, blocks and lists are branches; atoms, integers and texts are
leaves.  Only a pair limits its children: over any other number of them than two it becomes a
block, and so does a leaf, which then is the first of them.
-/

namespace TreeCursor

inductive Term where
  | call (tag : String) (args : List Term)
  | pair (left right : Term)
  | block (items : List Term)
  | list (items : List Term)
  | atom (name : String)
  | int (value : Int64)
  | str (value : String)

namespace Term

mutual

def equal : Term → Term → Bool
  | .call tag args, .call tag' args' => tag == tag' && equalItems args args'
  | .pair left right, .pair left' right' => equal left left' && equal right right'
  | .block items, .block items' => equalItems items items'
  | .list items, .list items' => equalItems items items'
  | .atom name, .atom name' => name == name'
  | .int value, .int value' => value == value'
  | .str value, .str value' => value == value'
  | _, _ => false

def equalItems : List Term → List Term → Bool
  | [], [] => true
  | item :: items, item' :: items' => equal item item' && equalItems items items'
  | _, _ => false

end

instance : BEq Term where
  beq := equal

def tag? : Term → Option String
  | .call tag _ => some tag
  | _ => none

def int? : Term → Option Int64
  | .int value => some value
  | _ => none

/-- Whether the term is a call with the given tag. -/
def isCall (term : Term) (tag : String) : Bool :=
  term.tag? == some tag

def isBranch : Term → Bool
  | .call _ _ => true
  | .pair _ _ => true
  | .block _ => true
  | .list _ => true
  | .atom _ => false
  | .int _ => false
  | .str _ => false

def children : Term → List Term
  | .call _ args => args
  | .pair left right => [left, right]
  | .block items => items
  | .list items => items
  | .atom _ => []
  | .int _ => []
  | .str _ => []

/-- A term in the shape of the given one over new children. -/
def rebuild (term : Term) (children : List Term) : Term :=
  match term with
  | .call tag _ => .call tag children
  | .pair _ _ =>
      match children with
      | [left, right] => .pair left right
      | _ => .block children
  | .block _ => .block children
  | .list _ => .list children
  | leaf => .block (leaf :: children)

mutual

/-- The number of terms in a term, itself included. -/
def nodeCount : Term → Nat
  | .call _ args => 1 + itemsCount args
  | .pair left right => 1 + (left.nodeCount + right.nodeCount)
  | .block items => 1 + itemsCount items
  | .list items => 1 + itemsCount items
  | .atom _ => 1
  | .int _ => 1
  | .str _ => 1

def itemsCount : List Term → Nat
  | [] => 0
  | item :: items => item.nodeCount + itemsCount items

end

theorem itemsCount_eq (items : List Term) : itemsCount items = (items.map nodeCount).sum := by
  induction items with
  | nil => rfl
  | cons item items ih => simp [itemsCount, ih]

theorem nodeCount_eq_children (term : Term) :
    term.nodeCount = 1 + (term.children.map nodeCount).sum := by
  cases term <;> simp [nodeCount, children, itemsCount_eq]

instance : Tree Term where
  isBranch := isBranch
  children := children
  rebuild := rebuild
  nodeCount := nodeCount
  nodeCount_eq := nodeCount_eq_children

end Term

end TreeCursor
