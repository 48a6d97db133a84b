import Mathlib.Logic.Relation
import TreeCursor.Proofs.Siblings
import TreeCursor.Proofs.Tree.Lawful
import TreeCursor.Script.Run

/-!
# Moves as steps between neighbours

Every move of a cursor is a walk of single steps to the first child, the parent or a sibling.  What
such a step keeps is therefore kept by all moves.  Steps keep that all frames belong to branches,
and from then on they keep the tree in which the cursor stands.
-/

namespace TreeCursor

namespace Zipper

variable {α : Type*}

/-- A cursor stands at the root or among siblings, which are lists on both sides of it. -/
@[elab_as_elim]
theorem placeCases {motive : Zipper α → Prop} (root : ∀ node, motive ⟨node, []⟩)
    (child : ∀ node parent lefts rights rest,
      motive ⟨node, ⟨parent, .ofList lefts, .ofList rights⟩ :: rest⟩)
    (z : Zipper α) : motive z := by
  rcases z with ⟨node, _ | ⟨⟨parent, left, right⟩, rest⟩⟩
  · exact root node
  · obtain ⟨lefts, rfl⟩ := left.exists_eq_ofList
    obtain ⟨rights, rfl⟩ := right.exists_eq_ofList
    exact child node parent lefts rights rest

section Siblings

variable (node parent sibling : α) (lefts rights : List α) (rest : List (Frame α))

theorem index_child (right : Siblings α) :
    index ⟨node, ⟨parent, .ofList lefts, right⟩ :: rest⟩ = lefts.length :=
  Siblings.length_ofList lefts

@[simp]
theorem lefts_child (right : Siblings α) :
    Zipper.lefts ⟨node, ⟨parent, .ofList lefts, right⟩ :: rest⟩ = lefts.reverse :=
  congrArg List.reverse (Siblings.toList_ofList lefts)

@[simp]
theorem rights_child (left : Siblings α) :
    Zipper.rights ⟨node, ⟨parent, left, .ofList rights⟩ :: rest⟩ = rights :=
  Siblings.toList_ofList rights

theorem left_cons :
    left ⟨node, ⟨parent, .ofList (sibling :: lefts), .ofList rights⟩ :: rest⟩ =
      some ⟨sibling, ⟨parent, .ofList lefts, .ofList (node :: rights)⟩ :: rest⟩ := rfl

theorem left_nil (right : Siblings α) :
    left ⟨node, ⟨parent, .ofList [], right⟩ :: rest⟩ = none := rfl

theorem right_cons :
    right ⟨node, ⟨parent, .ofList lefts, .ofList (sibling :: rights)⟩ :: rest⟩ =
      some ⟨sibling, ⟨parent, .ofList (node :: lefts), .ofList rights⟩ :: rest⟩ := rfl

theorem right_nil (left : Siblings α) :
    right ⟨node, ⟨parent, left, .ofList []⟩ :: rest⟩ = none := rfl

/-- The first sibling has all others to its right. -/
theorem leftmost_append :
    leftmost ⟨node, ⟨parent, .ofList (lefts ++ [sibling]), .ofList rights⟩ :: rest⟩ =
      ⟨sibling, ⟨parent, .ofList [], .ofList (lefts.reverse ++ node :: rights)⟩ :: rest⟩ := by
  simp [leftmost]
  rfl

theorem leftmost_nil (right : Siblings α) :
    leftmost ⟨node, ⟨parent, .ofList [], right⟩ :: rest⟩ =
      ⟨node, ⟨parent, .ofList [], right⟩ :: rest⟩ := rfl

/-- The last sibling has all others to its left. -/
theorem rightmost_append :
    rightmost ⟨node, ⟨parent, .ofList lefts, .ofList (rights ++ [sibling])⟩ :: rest⟩ =
      ⟨sibling, ⟨parent, .ofList (rights.reverse ++ node :: lefts), .ofList []⟩ :: rest⟩ := by
  simp [rightmost]
  rfl

theorem rightmost_nil (left : Siblings α) :
    rightmost ⟨node, ⟨parent, left, .ofList []⟩ :: rest⟩ =
      ⟨node, ⟨parent, left, .ofList []⟩ :: rest⟩ := rfl

/-- The first sibling of a node is that of the sibling before it. -/
theorem leftmost_cons :
    leftmost ⟨node, ⟨parent, .ofList (sibling :: lefts), .ofList rights⟩ :: rest⟩ =
      leftmost ⟨sibling, ⟨parent, .ofList lefts, .ofList (node :: rights)⟩ :: rest⟩ := by
  obtain rfl | ⟨before, first, rfl⟩ := lefts.eq_nil_or_concat'
  · exact leftmost_append node parent sibling [] rights rest
  · rw [← List.cons_append, leftmost_append, leftmost_append, List.reverse_cons,
      List.append_assoc, List.singleton_append]

/-- The last sibling of a node is that of the sibling after it. -/
theorem rightmost_cons :
    rightmost ⟨node, ⟨parent, .ofList lefts, .ofList (sibling :: rights)⟩ :: rest⟩ =
      rightmost ⟨sibling, ⟨parent, .ofList (node :: lefts), .ofList rights⟩ :: rest⟩ := by
  obtain rfl | ⟨before, last, rfl⟩ := rights.eq_nil_or_concat'
  · exact rightmost_append node parent sibling lefts [] rest
  · rw [← List.cons_append, rightmost_append, rightmost_append, List.reverse_cons,
      List.append_assoc, List.singleton_append]

end Siblings

theorem exists_of_left {z w : Zipper α} (hleft : z.left = some w) :
    ∃ node parent sibling lefts rights rest,
      z = ⟨node, ⟨parent, .ofList (sibling :: lefts), .ofList rights⟩ :: rest⟩ ∧
        w = ⟨sibling, ⟨parent, .ofList lefts, .ofList (node :: rights)⟩ :: rest⟩ := by
  cases z using placeCases with
  | root node => cases hleft
  | child node parent lefts rights rest =>
      cases lefts with
      | nil => cases hleft
      | cons sibling lefts =>
          rw [left_cons] at hleft
          exact ⟨node, parent, sibling, lefts, rights, rest, rfl, (Option.some.inj hleft).symm⟩

theorem exists_of_right {z w : Zipper α} (hright : z.right = some w) :
    ∃ node parent sibling lefts rights rest,
      z = ⟨node, ⟨parent, .ofList lefts, .ofList (sibling :: rights)⟩ :: rest⟩ ∧
        w = ⟨sibling, ⟨parent, .ofList (node :: lefts), .ofList rights⟩ :: rest⟩ := by
  cases z using placeCases with
  | root node => cases hright
  | child node parent lefts rights rest =>
      cases rights with
      | nil => cases hright
      | cons sibling rights =>
          rw [right_cons] at hright
          exact ⟨node, parent, sibling, lefts, rights, rest, rfl, (Option.some.inj hright).symm⟩

theorem route_cons (node other parent : α) (lefts : List α) (right : Siblings α)
    (rest : List (Frame α)) :
    route ⟨node, ⟨parent, .ofList lefts, right⟩ :: rest⟩ =
      route ⟨other, rest⟩ ++ [lefts.length] := by
  simp [route]

theorem route_eq_nil_iff {z : Zipper α} : z.route = [] ↔ z.path = [] := by
  simp [route]

theorem hasLeft_iff_left_ne_none (z : Zipper α) : z.hasLeft ↔ z.left ≠ none := by
  cases z using placeCases with
  | root node => simp [hasLeft, left]
  | child node parent lefts rights rest =>
      cases lefts with
      | nil => simp [hasLeft, left_nil]
      | cons sibling lefts => simp [hasLeft, left_cons]

theorem hasRight_iff_right_ne_none (z : Zipper α) : z.hasRight ↔ z.right ≠ none := by
  cases z using placeCases with
  | root node => simp [hasRight, right]
  | child node parent lefts rights rest =>
      cases rights with
      | nil => simp [hasRight, right_nil]
      | cons sibling rights => simp [hasRight, right_cons]

variable [Tree α]

theorem exists_of_up {z w : Zipper α} (hup : z.up = some w) :
    ∃ node frame rest, z = ⟨node, frame :: rest⟩ ∧ w = ⟨frame.fill node, rest⟩ := by
  rcases z with ⟨node, _ | ⟨frame, rest⟩⟩
  · cases hup
  · exact ⟨node, frame, rest, rfl, (Option.some.inj hup).symm⟩

@[simp]
theorem fill_ofList (parent node : α) (lefts rights : List α) :
    (Frame.mk parent (.ofList lefts) (.ofList rights)).fill node =
      Tree.rebuild parent (lefts.reverse ++ node :: rights) := by
  rw [Frame.fill, Siblings.toList_ofList, Siblings.toList_ofList]

theorem up_child (node parent : α) (lefts rights : List α) (rest : List (Frame α)) :
    up ⟨node, ⟨parent, .ofList lefts, .ofList rights⟩ :: rest⟩ =
      some ⟨Tree.rebuild parent (lefts.reverse ++ node :: rights), rest⟩ := by
  rw [← fill_ofList]
  rfl

theorem root_cons (node : α) (frame : Frame α) (rest : List (Frame α)) :
    root ⟨node, frame :: rest⟩ = root ⟨frame.fill node, rest⟩ := rfl

/-- The tree is that of the parent over the node and its siblings. -/
theorem root_child (node parent : α) (lefts rights : List α) (rest : List (Frame α)) :
    root ⟨node, ⟨parent, .ofList lefts, .ofList rights⟩ :: rest⟩ =
      root ⟨Tree.rebuild parent (lefts.reverse ++ node :: rights), rest⟩ := by
  rw [root_cons, fill_ofList]

/-- A branch with children leads down to the first of them. -/
theorem down_eq_some_iff {z w : Zipper α} :
    z.down = some w ↔ Tree.isBranch z.focus ∧ ∃ first others,
      Tree.children z.focus = first :: others ∧
        w = ⟨first, ⟨z.focus, .ofList [], .ofList others⟩ :: z.path⟩ := by
  unfold down
  split
  · next hbranch =>
      split
      · next hchildren => simp [hchildren]
      · next first others hchildren =>
          rw [Option.some.injEq, hchildren]
          constructor
          · rintro rfl
            exact ⟨hbranch, first, others, rfl, rfl⟩
          · rintro ⟨-, first', others', heq, rfl⟩
            cases heq
            rfl
  · next hleaf => simp [hleaf]

theorem down_of_children [LawfulTree α] {node first : α} {others : List α}
    (path : List (Frame α)) (hchildren : Tree.children node = first :: others) :
    down ⟨node, path⟩ = some ⟨first, ⟨node, .ofList [], .ofList others⟩ :: path⟩ := by
  have hbranch : Tree.isBranch node = true :=
    Tree.isBranch_of_children_ne_nil (hchildren ▸ List.cons_ne_nil first others)
  exact down_eq_some_iff.mpr ⟨hbranch, first, others, hchildren, rfl⟩

theorem down_eq_none_iff [LawfulTree α] {z : Zipper α} :
    z.down = none ↔ Tree.children z.focus = [] := by
  cases hchildren : Tree.children z.focus with
  | nil => simp [down, hchildren]
  | cons first others => simp [down_of_children z.path hchildren]

/-- The last child has all others to its left. -/
theorem rightmost_of_down {z child : Zipper α} (hdown : z.down = some child) :
    ∃ before last, Tree.children z.focus = before ++ [last] ∧
      child.rightmost =
        ⟨last, ⟨z.focus, .ofList before.reverse, .ofList []⟩ :: z.path⟩ := by
  obtain ⟨-, first, others, hchildren, rfl⟩ := down_eq_some_iff.mp hdown
  obtain rfl | ⟨before, last, rfl⟩ := others.eq_nil_or_concat'
  · exact ⟨[], first, hchildren, rightmost_nil first z.focus z.path (.ofList [])⟩
  · refine ⟨first :: before, last, hchildren, ?_⟩
    rw [rightmost_append, List.reverse_cons]

/-- Two places of which one is the other's first child, parent or next sibling. -/
inductive Adjacent : Zipper α → Zipper α → Prop where
  | down {z w : Zipper α} (hdown : z.down = some w) : Adjacent z w
  | up {z w : Zipper α} (hup : z.up = some w) : Adjacent z w
  | left {z w : Zipper α} (hleft : z.left = some w) : Adjacent z w
  | right {z w : Zipper α} (hright : z.right = some w) : Adjacent z w

/-- A walk of steps between neighbours. -/
abbrev Reaches : Zipper α → Zipper α → Prop :=
  Relation.ReflTransGen Adjacent

theorem reaches_leftmost (z : Zipper α) : Reaches z z.leftmost := by
  cases z using placeCases with
  | root node => exact .refl
  | child node parent lefts rights rest =>
      induction lefts generalizing node rights with
      | nil => exact .refl
      | cons sibling lefts ih =>
          rw [leftmost_cons]
          exact .head (.left rfl) (ih sibling (node :: rights))

theorem reaches_rightmost (z : Zipper α) : Reaches z z.rightmost := by
  cases z using placeCases with
  | root node => exact .refl
  | child node parent lefts rights rest =>
      induction rights generalizing node lefts with
      | nil => exact .refl
      | cons sibling rights ih =>
          rw [rightmost_cons]
          exact .head (.right rfl) (ih sibling (node :: lefts))

theorem reaches_deepestRightmost (z : Zipper α) : Reaches z z.deepestRightmost := by
  fun_induction deepestRightmost z with
  | case1 z hdown => exact .refl
  | case2 z child hdown ih =>
      exact .head (.down hdown) ((reaches_rightmost child).trans ih)

theorem down_deepestRightmost (z : Zipper α) : z.deepestRightmost.down = none := by
  fun_induction deepestRightmost z with
  | case1 z hdown => exact hdown
  | case2 z child hdown ih => exact ih

theorem reaches_top (z : Zipper α) : Reaches z z.top := by
  obtain ⟨node, path⟩ := z
  induction path generalizing node with
  | nil => exact .refl
  | cons frame rest ih => exact .head (.up rfl) (ih (frame.fill node))

theorem adjacent_sibling {dir : Direction} {z w : Zipper α} (hsibling : z.sibling dir = some w) :
    Adjacent z w := by
  cases dir with
  | next => exact .right hsibling
  | prev => exact .left hsibling

theorem reaches_skipFrom {dir : Direction} {node : α} {path : List (Frame α)} {w : Zipper α}
    (hskip : skipFrom dir node path = some w) : Reaches ⟨node, path⟩ w := by
  induction path generalizing node with
  | nil => cases hskip
  | cons frame rest ih =>
      rw [skipFrom] at hskip
      cases hsibling : sibling dir ⟨node, frame :: rest⟩ with
      | some z =>
          rw [hsibling] at hskip
          cases hskip
          exact .single (adjacent_sibling hsibling)
      | none =>
          rw [hsibling] at hskip
          exact .head (.up rfl) (ih hskip)

theorem reaches_skip {dir : Direction} {z w : Zipper α} (hskip : z.skip dir = some w) :
    Reaches z w :=
  reaches_skipFrom hskip

theorem reaches_next {z w : Zipper α} (hnext : z.next = some w) : Reaches z w := by
  unfold next at hnext
  cases hdown : z.down with
  | some child =>
      rw [hdown] at hnext
      cases hnext
      exact .single (.down hdown)
  | none =>
      rw [hdown] at hnext
      exact reaches_skip hnext

theorem reaches_prev {z w : Zipper α} (hprev : z.prev = some w) : Reaches z w := by
  unfold prev at hprev
  cases hleft : z.left with
  | some sibling =>
      rw [hleft] at hprev
      cases hprev
      exact .head (.left hleft) (reaches_deepestRightmost sibling)
  | none =>
      rw [hleft] at hprev
      exact .single (.up hprev)

theorem reaches_move {move : Move} {z w : Zipper α} (hmove : move.apply z = some w) :
    Reaches z w := by
  cases move with
  | down => exact .single (.down hmove)
  | up => exact .single (.up hmove)
  | left => exact .single (.left hmove)
  | right => exact .single (.right hmove)
  | leftmost =>
      cases hmove
      exact reaches_leftmost z
  | rightmost =>
      cases hmove
      exact reaches_rightmost z
  | next => exact reaches_next hmove
  | prev => exact reaches_prev hmove
  | top =>
      cases hmove
      exact reaches_top z

/-! ## What steps keep -/

omit [Tree α] in
theorem forall_parent_cons {p : α → Prop} {parent : α} {left right : Siblings α}
    {rest : List (Frame α)} :
    (∀ frame ∈ ⟨parent, left, right⟩ :: rest, p (Frame.parent frame)) ↔
      p parent ∧ ∀ frame ∈ rest, p frame.parent :=
  List.forall_mem_cons

/-- All frames above the cursor belong to branches. -/
def Sound (z : Zipper α) : Prop :=
  ∀ frame ∈ z.path, Tree.isBranch frame.parent

theorem sound_ofTree (tree : α) : Sound (ofTree tree) := by
  intro frame hframe
  cases hframe

/-- Soundness does not depend on the focus nor on the siblings. -/
theorem sound_cons {node parent : α} {left right : Siblings α} {rest : List (Frame α)} :
    Sound ⟨node, ⟨parent, left, right⟩ :: rest⟩ ↔
      Tree.isBranch parent ∧ ∀ frame ∈ rest, Tree.isBranch frame.parent :=
  List.forall_mem_cons

/-- What holds of every node that has a child to go down to holds of all parents on a path. -/
theorem forall_parent_of_adjacent {p : α → Prop}
    (hdescend : ∀ node, Tree.isBranch node → Tree.children node ≠ [] → p node) {z w : Zipper α}
    (hparents : ∀ frame ∈ z.path, p frame.parent) (hadjacent : Adjacent z w) :
    ∀ frame ∈ w.path, p frame.parent := by
  cases hadjacent with
  | down hdown =>
      obtain ⟨hbranch, first, others, hchildren, rfl⟩ := down_eq_some_iff.mp hdown
      have hfocus := hdescend z.focus hbranch (hchildren ▸ List.cons_ne_nil first others)
      exact forall_parent_cons.mpr ⟨hfocus, hparents⟩
  | up hup =>
      obtain ⟨node, frame, rest, rfl, rfl⟩ := exists_of_up hup
      exact (forall_parent_cons.mp hparents).2
  | left hleft =>
      obtain ⟨node, parent, sibling, lefts, rights, rest, rfl, rfl⟩ := exists_of_left hleft
      exact forall_parent_cons.mpr (forall_parent_cons.mp hparents)
  | right hright =>
      obtain ⟨node, parent, sibling, lefts, rights, rest, rfl, rfl⟩ := exists_of_right hright
      exact forall_parent_cons.mpr (forall_parent_cons.mp hparents)

theorem forall_parent_of_reaches {p : α → Prop}
    (hdescend : ∀ node, Tree.isBranch node → Tree.children node ≠ [] → p node) {z w : Zipper α}
    (hparents : ∀ frame ∈ z.path, p frame.parent) (hreaches : Reaches z w) :
    ∀ frame ∈ w.path, p frame.parent := by
  induction hreaches with
  | refl => exact hparents
  | tail _ hadjacent ih => exact forall_parent_of_adjacent hdescend ih hadjacent

theorem sound_of_reaches {z w : Zipper α} (hsound : Sound z) (hreaches : Reaches z w) :
    Sound w :=
  forall_parent_of_reaches (fun _ hbranch _ => hbranch) hsound hreaches

/-- A step leaves the tree as it is: down and up again is no change, and siblings stay in order. -/
theorem root_of_adjacent [LawfulTree α] {z w : Zipper α} (hadjacent : Adjacent z w) :
    w.root = z.root := by
  cases hadjacent with
  | down hdown =>
      obtain ⟨hbranch, first, others, hchildren, rfl⟩ := down_eq_some_iff.mp hdown
      rw [root_cons, fill_ofList, List.reverse_nil, List.nil_append, ← hchildren,
        LawfulTree.rebuild_children hbranch]
  | up hup =>
      obtain ⟨node, frame, rest, rfl, rfl⟩ := exists_of_up hup
      rfl
  | left hleft =>
      obtain ⟨node, parent, sibling, lefts, rights, rest, rfl, rfl⟩ := exists_of_left hleft
      rw [root_cons, root_cons, fill_ofList, fill_ofList, List.reverse_cons, List.append_assoc,
        List.singleton_append]
  | right hright =>
      obtain ⟨node, parent, sibling, lefts, rights, rest, rfl, rfl⟩ := exists_of_right hright
      rw [root_cons, root_cons, fill_ofList, fill_ofList, List.reverse_cons, List.append_assoc,
        List.singleton_append]

theorem root_of_reaches [LawfulTree α] {z w : Zipper α} (hreaches : Reaches z w) :
    w.root = z.root := by
  induction hreaches with
  | refl => rfl
  | tail _ hadjacent ih => rw [root_of_adjacent hadjacent, ih]

/-- The last child has nothing to its right, so that a scan goes on from its parent. -/
theorem skip_next_last (node parent : α) (lefts : List α) (rest : List (Frame α)) :
    skip .next ⟨node, ⟨parent, .ofList lefts, .ofList []⟩ :: rest⟩ =
      skip .next ⟨Tree.rebuild parent (lefts.reverse ++ [node]), rest⟩ := by
  rw [← fill_ofList]
  rfl

/-- From the last place of a subtree a scan goes on to where it would go on from the subtree. -/
theorem skip_deepestRightmost [LawfulTree α] (z : Zipper α) :
    z.deepestRightmost.skip .next = z.skip .next := by
  fun_induction deepestRightmost z with
  | case1 z hdown => rfl
  | case2 z child hdown ih =>
      obtain ⟨hbranch, -⟩ := down_eq_some_iff.mp hdown
      obtain ⟨before, last, hchildren, hrightmost⟩ := rightmost_of_down hdown
      rw [ih, hrightmost, skip_next_last, List.reverse_reverse, ← hchildren,
        LawfulTree.rebuild_children hbranch]

end Zipper

end TreeCursor
