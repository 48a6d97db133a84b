import TreeCursor.Proofs.Tree.Lawful
import TreeCursor.Term.Basic

/-!
# The laws of terms

Terms keep the children they are given, and a pair is read as the block that it becomes over
other than two of them.
-/

namespace TreeCursor.Term

@[simp]
theorem tree_isBranch (term : Term) : Tree.isBranch term = term.isBranch := rfl

@[simp]
theorem tree_children (term : Term) : Tree.children term = term.children := rfl

@[simp]
theorem tree_rebuild (term : Term) (children : List Term) :
    Tree.rebuild term children = term.rebuild children := rfl

/-- Over two children a pair stays one. -/
theorem rebuild_pair_two (left right first second : Term) :
    (pair left right).rebuild [first, second] = pair first second := rfl

theorem rebuild_pair_of_length_ne_two (left right : Term) {children : List Term}
    (hlength : children.length ≠ 2) : (pair left right).rebuild children = block children := by
  match children with
  | [] | [_] | _ :: _ :: _ :: _ => rfl
  | [_, _] => exact absurd rfl hlength

theorem isBranch_rebuild (term : Term) (children : List Term) :
    (term.rebuild children).isBranch = true := by
  cases term with
  | pair left right =>
      by_cases hlength : children.length = 2
      · obtain ⟨first, second, rfl⟩ := List.length_eq_two.mp hlength
        rfl
      · rw [rebuild_pair_of_length_ne_two left right hlength]
        rfl
  | _ => rfl

theorem children_rebuild {term : Term} (hbranch : term.isBranch = true) (children : List Term) :
    (term.rebuild children).children = children := by
  cases term with
  | pair left right =>
      by_cases hlength : children.length = 2
      · obtain ⟨first, second, rfl⟩ := List.length_eq_two.mp hlength
        rfl
      · rw [rebuild_pair_of_length_ne_two left right hlength]
        rfl
  | call tag args => rfl
  | block items => rfl
  | list items => rfl
  | _ => cases hbranch

/-- A pair left with fewer than two children is a block, which it also becomes over them. -/
theorem rebuild_rebuild_suffix {term : Term} (hbranch : term.isBranch = true)
    {rest children : List Term} (hsuffix : rest <:+ term.children)
    (hlength : children.length ≤ rest.length) :
    (term.rebuild rest).rebuild children = term.rebuild children := by
  cases term with
  | pair left right =>
      by_cases hrest : rest.length = 2
      · obtain ⟨first, second, rfl⟩ := List.length_eq_two.mp hrest
        rw [rebuild_pair_two]
        by_cases hchildren : children.length = 2
        · obtain ⟨third, fourth, rfl⟩ := List.length_eq_two.mp hchildren
          rfl
        · rw [rebuild_pair_of_length_ne_two first second hchildren,
            rebuild_pair_of_length_ne_two left right hchildren]
      · have hle : rest.length ≤ 2 := hsuffix.length_le
        rw [rebuild_pair_of_length_ne_two left right hrest,
          rebuild_pair_of_length_ne_two left right (by omega)]
        rfl
  | call tag args => rfl
  | block items => rfl
  | list items => rfl
  | _ => cases hbranch

instance : LawfulTree Term where
  isBranch_rebuild := isBranch_rebuild
  children_rebuild hbranch := children_rebuild hbranch
  children_rebuild_leaf {term} hleaf children := by
    cases term with
    | atom name => rfl
    | int value => rfl
    | str value => rfl
    | _ => cases hleaf
  children_leaf {term} hleaf := by
    cases term with
    | atom name => rfl
    | int value => rfl
    | str value => rfl
    | _ => cases hleaf
  rebuild_children {term} hbranch := by
    cases term with
    | call tag args => rfl
    | pair left right => rfl
    | block items => rfl
    | list items => rfl
    | _ => cases hbranch
  rebuild_rebuild_suffix hbranch := rebuild_rebuild_suffix hbranch

mutual

/-- The term with every pair in it read as a block of two. -/
def plain : Term → Term
  | .call tag args => .call tag (plainItems args)
  | .pair left right => .block [left.plain, right.plain]
  | .block items => .block (plainItems items)
  | .list items => .list (plainItems items)
  | .atom name => .atom name
  | .int value => .int value
  | .str value => .str value

def plainItems : List Term → List Term
  | [] => []
  | item :: items => item.plain :: plainItems items

end

theorem plainItems_eq_map (items : List Term) : plainItems items = items.map plain := by
  induction items with
  | nil => rfl
  | cons item items ih => rw [plainItems, ih, List.map_cons]

theorem plain_block (items : List Term) : (block items).plain = block (items.map plain) := by
  rw [plain, plainItems_eq_map]

/-- Whether or not a pair becomes a block, it is read as one. -/
theorem plain_rebuild_pair (left right : Term) (children : List Term) :
    ((pair left right).rebuild children).plain = block (children.map plain) := by
  by_cases hlength : children.length = 2
  · obtain ⟨first, second, rfl⟩ := List.length_eq_two.mp hlength
    rw [rebuild_pair_two, plain]
    rfl
  · rw [rebuild_pair_of_length_ne_two left right hlength, plain_block]

theorem plain_rebuild {term : Term} (hbranch : term.isBranch = true) (children : List Term) :
    (term.rebuild children).plain = term.plain.rebuild (children.map plain) := by
  cases term with
  | call tag args =>
      rw [plain]
      simp only [rebuild, plain, plainItems_eq_map]
  | pair left right =>
      rw [plain_rebuild_pair, plain]
      rfl
  | block items =>
      rw [plain]
      simp only [rebuild, plain, plainItems_eq_map]
  | list items =>
      rw [plain]
      simp only [rebuild, plain, plainItems_eq_map]
  | _ => cases hbranch

instance : PlainTree Term where
  plain := plain
  plain_rebuild hbranch := plain_rebuild hbranch
  rebuild_rebuild_plain {term} hbranch before children := by
    cases term with
    | call tag args => rfl
    | pair left right => rfl
    | block items => rfl
    | list items => rfl
    | _ => cases hbranch

end TreeCursor.Term
