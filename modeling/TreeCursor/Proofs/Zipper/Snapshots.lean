import Mathlib.Logic.Function.Iterate
import TreeCursor.Proofs.Json.Lawful
import TreeCursor.Proofs.Term.Lawful
import TreeCursor.Proofs.Zipper.Editing
import TreeCursor.Proofs.Zipper.Walk

/-!
# The parents that a path keeps

A frame keeps its parent as it was when the cursor went down from it, and only a branch with
children lets a cursor go down.  Whatever becomes of the node in focus, the parents on its path are
therefore such branches.  On its way up a cursor rebuilds these and no leaf, which would only be put
before its siblings once more.  So nothing on the way depends on what a leaf would be rebuilt to.
-/

namespace TreeCursor

/-- The same trees with another rule for the leaves that are given children. -/
@[reducible]
def Tree.withFallback {α : Type*} [Tree α] (fallback : α → List α → α) : Tree α where
  isBranch := Tree.isBranch
  children := Tree.children
  rebuild node nodes :=
    if Tree.isBranch node then Tree.rebuild node nodes else fallback node nodes
  nodeCount := Tree.nodeCount
  nodeCount_eq := Tree.nodeCount_eq

namespace Zipper

open TreeCursor.Tree

variable {α : Type*} [Tree α]

/-! ## The rule for leaves -/

section Fallback

variable (fallback : α → List α → α)

theorem deepestRightmost_withFallback (z : Zipper α) :
    @deepestRightmost α (withFallback fallback) z = z.deepestRightmost := by
  fun_induction deepestRightmost z with
  | case1 z hdown =>
      have hdown' : @down α (withFallback fallback) z = none := hdown
      rw [@deepestRightmost.eq_def α (withFallback fallback) z, hdown']
  | case2 z child hdown ih =>
      have hdown' : @down α (withFallback fallback) z = some child := hdown
      rw [@deepestRightmost.eq_def α (withFallback fallback) z, hdown']
      exact ih

theorem up_withFallback {z : Zipper α} (hsound : Sound z) :
    @up α (withFallback fallback) z = z.up := by
  obtain ⟨node, _ | ⟨⟨parent, left, right⟩, rest⟩⟩ := z
  · rfl
  · have hbranch : isBranch parent = true := (sound_cons.mp hsound).1
    exact congrArg (fun filled => some (mk filled rest)) (if_pos hbranch)

theorem remove_withFallback {z : Zipper α} (hsound : Sound z) :
    @remove α (withFallback fallback) z = z.remove := by
  cases z using placeCases with
  | root node => rfl
  | child node parent lefts rights rest =>
      cases lefts with
      | nil =>
          have hbranch : isBranch parent = true := (sound_cons.mp hsound).1
          exact congrArg (fun filled => Except.ok (mk filled rest)) (if_pos hbranch)
      | cons sibling lefts =>
          exact congrArg Except.ok (deepestRightmost_withFallback fallback _)

end Fallback

/-! ## The way up -/

theorem iterate_up_eq_none_iff (z : Zipper α) (times : ℕ) :
    (·.bind up)^[times] (some z) = none ↔ z.depth < times := by
  obtain ⟨node, path⟩ := z
  induction path generalizing node times with
  | nil =>
      cases times with
      | zero => exact iff_of_false (Option.some_ne_none _) (Nat.lt_irrefl 0)
      | succ times =>
          have hnone : (·.bind up)^[times] (none : Option (Zipper α)) = none :=
            Function.iterate_fixed rfl times
          exact iff_of_true hnone times.succ_pos
  | cons frame rest ih =>
      cases times with
      | zero => exact iff_of_false (Option.some_ne_none _) (Nat.not_lt_zero _)
      | succ times => exact (ih times (frame.fill node)).trans Nat.succ_lt_succ_iff.symm

theorem iterate_up_depth (z : Zipper α) : (·.bind up)^[z.depth] (some z) = some z.top := by
  obtain ⟨node, path⟩ := z
  induction path generalizing node with
  | nil => rfl
  | cons frame rest ih => exact ih (frame.fill node)

/-- The parent over the node in focus and its siblings, as they are now. -/
theorem children_of_up [LawfulTree α] {z w : Zipper α} (hsound : Sound z) (hup : z.up = some w) :
    isBranch w.focus ∧ children w.focus = z.lefts ++ z.focus :: z.rights := by
  cases z using placeCases with
  | root node => cases hup
  | child node parent lefts rights rest =>
      rw [up_child] at hup
      cases hup
      rw [lefts_child, rights_child]
      exact ⟨LawfulTree.isBranch_rebuild _ _,
        LawfulTree.children_rebuild (sound_cons.mp hsound).1 _⟩

/-- Without a sibling before the node a removal leads to the parent over those after it. -/
theorem children_of_remove [LawfulTree α] {z w : Zipper α} (hsound : Sound z)
    (hremove : z.remove = .ok w) (hleft : z.left = none) :
    isBranch w.focus ∧ children w.focus = z.rights := by
  cases z using placeCases with
  | root node => cases hremove
  | child node parent lefts rights rest =>
      cases lefts with
      | nil =>
          rw [remove_nil] at hremove
          cases hremove
          rw [rights_child]
          exact ⟨LawfulTree.isBranch_rebuild _ _,
            LawfulTree.children_rebuild (sound_cons.mp hsound).1 _⟩
      | cons sibling lefts => cases hleft

/-- Moves alone leave every parent over the children that it had. -/
theorem children_parent_of_walked [LawfulTree α] {tree : α} {z : Zipper α}
    (hwalked : Walked tree z) {frame : Frame α} {rest : List (Frame α)}
    (hpath : z.path = frame :: rest) : children frame.parent = z.lefts ++ z.focus :: z.rights := by
  have hfresh := fresh_of_walked hwalked
  obtain ⟨node, path⟩ := z
  obtain rfl : path = frame :: rest := hpath
  exact hfresh.2.1

/-- A traversal replaces the node in focus and comes back to the same path. -/
theorem path_and_reachable_of_traverse {σ : Type*} {tree : α} {z w : Zipper α} {visits : ℕ}
    {visit : Zipper α → σ → Control (Zipper α × σ)} {acc acc' : σ} (hreachable : Reachable tree z)
    (htraverse : z.traverseWhileWith visits visit acc = some (w, acc')) :
    w.path = z.path ∧ Reachable tree w := by
  rw [traverseWhileWith_eq] at htraverse
  obtain ⟨⟨done, result⟩, -, heq⟩ := Option.map_eq_some_iff.mp htraverse
  cases heq
  exact ⟨rfl, .edit (.replace done.focus) hreachable rfl⟩

/-! ## Cursors that fold up -/

/-- A cursor whose path leads up to the root and rebuilds nothing but branches. -/
structure FoldsUp (z : Zipper α) : Prop where
  /-- Every parent was left as a branch with children. -/
  parents : ∀ frame ∈ z.path, isBranch frame.parent ∧ children frame.parent ≠ []
  /-- It makes no difference what a leaf would be rebuilt to. -/
  fallback : ∀ leaf : α → List α → α,
    @Zipper.up α (withFallback leaf) z = z.up ∧ @Zipper.remove α (withFallback leaf) z = z.remove
  up : ∀ w, z.up = some w →
    isBranch w.focus ∧ children w.focus = z.lefts ++ z.focus :: z.rights
  remove : ∀ w, z.remove = .ok w → z.left = none →
    isBranch w.focus ∧ children w.focus = z.rights
  /-- There are as many steps up as there are frames. -/
  steps : ∀ times, (·.bind Zipper.up)^[times] (some z) = none ↔ z.depth < times
  /-- The last of them leads to the root. -/
  root : (·.bind Zipper.up)^[z.depth] (some z) = some z.top ∧ z.top.isRoot

variable [LawfulTree α]

theorem foldsUp {tree : α} {z : Zipper α} (hreachable : Reachable tree z) : FoldsUp z := by
  have hsound : Sound z := sound_of_reachable hreachable
  constructor
  case parents =>
    exact forall_parent_of_reachable (p := fun node => isBranch node ∧ children node ≠ [])
      (fun _ => And.intro) hreachable
  case fallback =>
    intro leaf
    exact ⟨up_withFallback leaf hsound, remove_withFallback leaf hsound⟩
  case up =>
    intro w hup
    exact children_of_up hsound hup
  case remove =>
    intro w hremove hleft
    exact children_of_remove hsound hremove hleft
  case steps => exact iterate_up_eq_none_iff z
  case root => exact ⟨iterate_up_depth z, rfl⟩

/-- Whatever the history of a cursor, its path leads up over branches with children that are rebuilt
over the nodes that the cursor shows, also once a traversal has replaced the focus.  Where only
moves led, these nodes are the children that the parent was left with. -/
theorem paths_fold_up {σ : Type*} {tree : α} {z : Zipper α} (hreachable : Reachable tree z) :
    FoldsUp z ∧
    (∀ visits (visit : Zipper α → σ → Control (Zipper α × σ)) acc w acc',
      z.traverseWhileWith visits visit acc = some (w, acc') → w.path = z.path ∧ FoldsUp w) ∧
    (Walked tree z → ∀ frame rest, z.path = frame :: rest →
      children frame.parent = z.lefts ++ z.focus :: z.rights) := by
  refine ⟨foldsUp hreachable, fun visits visit acc w acc' htraverse => ?_, ?_⟩
  · obtain ⟨hpath, hreached⟩ := path_and_reachable_of_traverse hreachable htraverse
    exact ⟨hpath, foldsUp hreached⟩
  · intro hwalked frame rest hpath
    exact children_parent_of_walked hwalked hpath

/-- A leaf in the place of a child of a pair that will be a block, kept by a traversal that stops at
once, and the key of a member to which only moves led. -/
theorem paths_fold_up_from_leaf_and_key :
    let leaf : Zipper Term := ⟨.int 9,
      [⟨.pair (.int 1) (.int 2), .ofList [], .ofList [.int 5, .int 2]⟩,
        ⟨.list [.pair (.int 1) (.int 2)], .ofList [], .ofList []⟩]⟩
    let key : Zipper Document := ⟨.string "a", [⟨.entry "a" .null, .ofList [], .ofList [.null]⟩,
      ⟨.object ⟨[("a", .null)], by decide⟩, .ofList [], .ofList []⟩]⟩
    (Reachable (Term.list [.pair (.int 1) (.int 2)]) leaf ∧ FoldsUp leaf ∧
      ∃ w, leaf.traverseWhileWith 1 (fun w acc => .halt (w, acc)) () = some (w, ()) ∧
        w.path = leaf.path ∧ FoldsUp w) ∧
    Walked (Document.object ⟨[("a", .null)], by decide⟩) key ∧ FoldsUp key ∧
      children (Document.entry "a" .null) = key.lefts ++ key.focus :: key.rights := by
  intro leaf key
  have hleaf : Reachable (Term.list [.pair (.int 1) (.int 2)]) leaf :=
    .edit (.replace (.int 9)) (.edit (.insertRight (.int 5))
      (.move (.move .down) (.move (.move .down) .start rfl) rfl) rfl) rfl
  have hkey : Walked (Document.object ⟨[("a", .null)], by decide⟩) key :=
    .move (.move .down) (.move (.move .down) .start rfl) rfl
  obtain ⟨hfolds, htraversed, -⟩ := paths_fold_up (σ := Unit) hleaf
  obtain ⟨hfolds', -, hwalked⟩ := paths_fold_up (σ := Unit) hkey.reachable
  have htraverse := htraversed 1 (fun w acc => .halt (w, acc)) () _ () rfl
  exact ⟨⟨hleaf, hfolds, _, rfl, htraverse⟩, hkey, hfolds', hwalked hkey _ _ rfl⟩

end Zipper

end TreeCursor
