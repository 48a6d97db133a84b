import TreeCursor.Proofs.Zipper.Adjacent
import TreeCursor.Zipper.Edit

/-!
# Histories of a cursor

A cursor is reachable in a tree when a sequence of moves and edits leads to it from the root.
Whatever the history, all frames above a reachable cursor belong to branches.
-/

namespace TreeCursor

/-- A move, or a skip of what lies below the cursor or above it. -/
inductive Motion where
  | move (kind : Move)
  | skip (dir : Direction)

inductive Edit (α : Type*) where
  | replace (node : α)
  | update (change : α → α)
  | remove
  | insertLeft (node : α)
  | insertRight (node : α)
  | insertChild (node : α)
  | appendChild (node : α)

section Apply

variable {α : Type*} [Tree α]

def Motion.apply (motion : Motion) (z : Zipper α) : Option (Zipper α) :=
  match motion with
  | .move kind => kind.apply z
  | .skip dir => z.skip dir

def Edit.apply (edit : Edit α) (z : Zipper α) : Except EditError (Zipper α) :=
  match edit with
  | .replace node => .ok (z.replace node)
  | .update change => .ok (z.update change)
  | .remove => z.remove
  | .insertLeft node => z.insertLeft node
  | .insertRight node => z.insertRight node
  | .insertChild node => .ok (z.insertChild node)
  | .appendChild node => .ok (z.appendChild node)

end Apply

namespace Zipper

variable {α : Type*} [Tree α]

/-- The cursors that moves alone lead to from the root of a tree. -/
inductive Walked (tree : α) : Zipper α → Prop where
  | start : Walked tree (ofTree tree)
  | move {z w : Zipper α} (motion : Motion) (hwalked : Walked tree z)
      (hmove : motion.apply z = some w) : Walked tree w

/-- The cursors that moves and edits in any order lead to from the root of a tree. -/
inductive Reachable (tree : α) : Zipper α → Prop where
  | start : Reachable tree (ofTree tree)
  | move {z w : Zipper α} (motion : Motion) (hreachable : Reachable tree z)
      (hmove : motion.apply z = some w) : Reachable tree w
  | edit {z w : Zipper α} (edit : Edit α) (hreachable : Reachable tree z)
      (hedit : edit.apply z = .ok w) : Reachable tree w

theorem Walked.reachable {tree : α} {z : Zipper α} (hwalked : Walked tree z) :
    Reachable tree z := by
  induction hwalked with
  | start => exact .start
  | move motion _ hmove ih => exact .move motion ih hmove

theorem reaches_motion {motion : Motion} {z w : Zipper α} (hmove : motion.apply z = some w) :
    Reaches z w := by
  cases motion with
  | move kind => exact reaches_move hmove
  | skip dir => exact reaches_skip hmove

/-- With a sibling before it the node gives way to what lies last below that sibling. -/
theorem remove_cons (node parent sibling : α) (lefts rights : List α) (rest : List (Frame α)) :
    remove ⟨node, ⟨parent, .ofList (sibling :: lefts), .ofList rights⟩ :: rest⟩ =
      .ok (deepestRightmost ⟨sibling, ⟨parent, .ofList lefts, .ofList rights⟩ :: rest⟩) := rfl

theorem remove_nil (node parent : α) (rights : List α) (rest : List (Frame α)) :
    remove ⟨node, ⟨parent, .ofList [], .ofList rights⟩ :: rest⟩ =
      .ok ⟨Tree.rebuild parent rights, rest⟩ := by
  have hrights := Siblings.toList_ofList rights
  exact congrArg (fun nodes => Except.ok (mk (Tree.rebuild parent nodes) rest)) hrights

theorem exists_remove (node parent : α) (lefts rights : List α) (rest : List (Frame α)) :
    ∃ w, remove ⟨node, ⟨parent, .ofList lefts, .ofList rights⟩ :: rest⟩ = .ok w := by
  cases lefts with
  | nil => exact ⟨_, remove_nil node parent rights rest⟩
  | cons sibling lefts => exact ⟨_, remove_cons node parent sibling lefts rights rest⟩

/-- Wherever a removal leads to, in its tree the parent is rebuilt over the other siblings. -/
theorem root_of_remove [LawfulTree α] {node parent : α} {lefts rights : List α}
    {rest : List (Frame α)} {w : Zipper α}
    (hremove : remove ⟨node, ⟨parent, .ofList lefts, .ofList rights⟩ :: rest⟩ = .ok w) :
    w.root = root ⟨Tree.rebuild parent (lefts.reverse ++ rights), rest⟩ := by
  cases lefts with
  | nil =>
      rw [remove_nil] at hremove
      cases hremove
      rfl
  | cons sibling lefts =>
      rw [remove_cons] at hremove
      cases hremove
      rw [root_of_reaches (reaches_deepestRightmost _), root_cons, fill_ofList,
        List.reverse_cons, List.append_assoc, List.singleton_append]

section Parents

variable {p : α → Prop}
variable (hdescend : ∀ node, Tree.isBranch node → Tree.children node ≠ [] → p node)
include hdescend

/-- An edit keeps the parents on the path, and a removal may go down to others. -/
theorem forall_parent_of_edit {edit : Edit α} {z w : Zipper α}
    (hparents : ∀ frame ∈ z.path, p frame.parent) (hedit : edit.apply z = .ok w) :
    ∀ frame ∈ w.path, p frame.parent := by
  cases z using placeCases with
  | root node =>
      cases edit <;> cases hedit <;> exact hparents
  | child node parent lefts rights rest =>
      obtain ⟨hparent, hrest⟩ := forall_parent_cons.mp hparents
      cases edit with
      | replace x =>
          cases hedit
          exact hparents
      | update change =>
          cases hedit
          exact hparents
      | remove =>
          rw [Edit.apply] at hedit
          cases lefts with
          | nil =>
              rw [remove_nil] at hedit
              cases hedit
              exact hrest
          | cons sibling lefts =>
              rw [remove_cons] at hedit
              cases hedit
              exact forall_parent_of_reaches hdescend (forall_parent_cons.mpr ⟨hparent, hrest⟩)
                (reaches_deepestRightmost _)
      | insertLeft x =>
          cases hedit
          exact forall_parent_cons.mpr ⟨hparent, hrest⟩
      | insertRight x =>
          cases hedit
          exact forall_parent_cons.mpr ⟨hparent, hrest⟩
      | insertChild x =>
          cases hedit
          exact hparents
      | appendChild x =>
          cases hedit
          exact hparents

theorem forall_parent_of_reachable {tree : α} {z : Zipper α} (hreachable : Reachable tree z) :
    ∀ frame ∈ z.path, p frame.parent := by
  induction hreachable with
  | start => exact List.forall_mem_nil _
  | move motion _ hmove ih => exact forall_parent_of_reaches hdescend ih (reaches_motion hmove)
  | edit edit _ hedit ih => exact forall_parent_of_edit hdescend ih hedit

end Parents

theorem sound_of_edit {edit : Edit α} {z w : Zipper α} (hsound : Sound z)
    (hedit : edit.apply z = .ok w) : Sound w :=
  forall_parent_of_edit (fun _ hbranch _ => hbranch) hsound hedit

theorem sound_of_reachable {tree : α} {z : Zipper α} (hreachable : Reachable tree z) :
    Sound z :=
  forall_parent_of_reachable (fun _ hbranch _ => hbranch) hreachable

end Zipper

end TreeCursor
