import TreeCursor.Proofs.Json.Lawful
import TreeCursor.Proofs.Term.Lawful
import TreeCursor.Proofs.Tree.Preorder
import TreeCursor.Proofs.Zipper.Reachable
import TreeCursor.Proofs.Zipper.Walk

/-!
# The contents of a tree in the course of its edits

The leaves of a tree stand in a row, and those below a cursor are an unbroken part of it.  An edit
puts other leaves in place of that part and changes the number of nodes by what it puts in and takes
out.  Everything else that a cursor does leaves the contents alone.  This is so after any history,
as only the children of branches count and a branch that falls back to another shape keeps them.
-/

namespace TreeCursor

namespace Tree

variable {α : Type*} [Tree α]

/-- The leaves from left to right.  Branches without children are not among them. -/
def leaves (node : α) : List α :=
  (preorder node).filter fun below => !isBranch below

theorem leaves_of_branch {node : α} (hbranch : isBranch node = true) :
    leaves node = (children node).flatMap leaves := by
  rw [leaves, preorder_eq, List.filter_cons_of_neg (by rw [hbranch]; decide),
    List.filter_flatMap]
  rfl

section Rebuild

variable [LawfulTree α] {node : α}

theorem leaves_of_leaf (hleaf : isBranch node = false) : leaves node = [node] := by
  rw [leaves, preorder_eq, LawfulTree.children_leaf hleaf,
    List.filter_cons_of_pos (by rw [hleaf]; decide)]
  rfl

theorem leaves_rebuild (hbranch : isBranch node = true) (nodes : List α) :
    leaves (rebuild node nodes) = nodes.flatMap leaves := by
  rw [leaves_of_branch (LawfulTree.isBranch_rebuild node nodes),
    LawfulTree.children_rebuild hbranch]

theorem leaves_rebuild_leaf (hleaf : isBranch node = false) (nodes : List α) :
    leaves (rebuild node nodes) = node :: nodes.flatMap leaves := by
  rw [leaves_of_branch (LawfulTree.isBranch_rebuild node nodes),
    LawfulTree.children_rebuild_leaf hleaf, List.flatMap_cons, leaves_of_leaf hleaf,
    List.singleton_append]

theorem nodeCount_rebuild (hbranch : isBranch node = true) (nodes : List α) :
    nodeCount (rebuild node nodes) = 1 + forestCount nodes := by
  rw [nodeCount_eq_forestCount, LawfulTree.children_rebuild hbranch]

theorem nodeCount_rebuild_leaf (hleaf : isBranch node = false) (nodes : List α) :
    nodeCount (rebuild node nodes) = 1 + nodeCount node + forestCount nodes := by
  rw [nodeCount_eq_forestCount, LawfulTree.children_rebuild_leaf hleaf, forestCount_cons,
    Nat.add_assoc]

end Rebuild

end Tree

namespace Zipper

open TreeCursor.Tree

variable {α : Type*} [Tree α]

/-! ## The contents around a cursor -/

/-- The leaves to the left of a path. -/
def leavesBefore : List (Frame α) → List α
  | [] => []
  | frame :: rest => leavesBefore rest ++ frame.left.toList.reverse.flatMap leaves

/-- The leaves to the right of a path. -/
def leavesAfter : List (Frame α) → List α
  | [] => []
  | frame :: rest => frame.right.toList.flatMap leaves ++ leavesAfter rest

section Root

variable [LawfulTree α] {path : List (Frame α)}
variable (hbranches : ∀ frame ∈ path, isBranch frame.parent = true)
include hbranches

theorem leaves_root (node : α) :
    leaves (root ⟨node, path⟩) = leavesBefore path ++ leaves node ++ leavesAfter path := by
  induction path generalizing node with
  | nil => exact (List.append_nil _).symm
  | cons frame rest ih =>
      obtain ⟨hframe, hrest⟩ := List.forall_mem_cons.mp hbranches
      rw [root_cons, ih hrest, Frame.fill, leaves_rebuild hframe, List.flatMap_append,
        List.flatMap_cons, leavesBefore, leavesAfter]
      simp only [List.append_assoc]

theorem nodeCount_root (node : α) :
    nodeCount (root ⟨node, path⟩) = pathBehind path + nodeCount node + pathAhead path := by
  induction path generalizing node with
  | nil => exact (Nat.zero_add _).symm
  | cons frame rest ih =>
      obtain ⟨hframe, hrest⟩ := List.forall_mem_cons.mp hbranches
      rw [root_cons, ih hrest, Frame.fill, nodeCount_rebuild hframe, forestCount_append,
        forestCount_reverse, forestCount_cons, pathBehind_cons, pathAhead_cons]
      omega

end Root

/-! ## Traversals that change nothing -/

theorem top_of_next [LawfulTree α] {z w : Zipper α} (hnext : z.next = some w) : w.top = z.top :=
  congrArg ofTree (root_of_reaches (reaches_next hnext))

/-- A visitor that leaves the cursor as it is has the walk end at the root of the same tree. -/
theorem walk_proceed [LawfulTree α] {σ : Type*} (acc : σ) {visits : ℕ} {z : Zipper α}
    (hvisits : z.ahead < visits) :
    walk (fun w acc => .proceed (w, acc)) visits z acc = some (z.top, acc) := by
  induction visits generalizing z with
  | zero => omega
  | succ visits ih =>
      simp only [walk]
      cases hnext : z.next with
      | none => rfl
      | some w =>
          have hahead := ahead_next hnext
          rw [← top_of_next hnext]
          exact ih (by omega)

theorem traverse_id [LawfulTree α] {visits : ℕ} {z : Zipper α}
    (hvisits : nodeCount z.focus ≤ visits) : traverse visits id z = some z := by
  have hahead : (ofTree z.focus).ahead < visits := by
    rw [nodeCount_eq_forestCount] at hvisits
    change forestCount (children z.focus) + 0 < visits
    omega
  rw [traverse, traverseWith_eq, traverseWhileWith_eq]
  simp only [id_eq]
  rw [walk_proceed () hahead]
  rfl

end Zipper

/-! ## What edits put in -/

namespace Edit

variable {α : Type*} [Tree α]

/-- The edits that the root of a tree does not admit. -/
def needsParent : Edit α → Bool
  | remove | insertLeft _ | insertRight _ => true
  | _ => false

/-- The leaves that take the place of those below the focus. -/
def leaves (focus : α) : Edit α → List α
  | replace node => Tree.leaves node
  | update change => Tree.leaves (change focus)
  | remove => []
  | insertLeft node => Tree.leaves node ++ Tree.leaves focus
  | insertRight node => Tree.leaves focus ++ Tree.leaves node
  | insertChild node =>
      if Tree.isBranch focus then Tree.leaves node ++ Tree.leaves focus
      else focus :: Tree.leaves node
  | appendChild node =>
      if Tree.isBranch focus then Tree.leaves focus ++ Tree.leaves node
      else focus :: Tree.leaves node

/-- The number of nodes that take the place of the focus and those below it.  A leaf that is given a
child becomes a child itself, of a branch that was not there before. -/
def nodeCount (focus : α) : Edit α → ℕ
  | replace node => Tree.nodeCount node
  | update change => Tree.nodeCount (change focus)
  | remove => 0
  | insertLeft node | insertRight node => Tree.nodeCount focus + Tree.nodeCount node
  | insertChild node | appendChild node =>
      if Tree.isBranch focus then Tree.nodeCount focus + Tree.nodeCount node
      else Tree.nodeCount focus + (Tree.nodeCount node + 1)

/-- Nothing else is refused than an edit that needs a parent where there is none. -/
theorem refused_iff {edit : Edit α} {z : Zipper α} :
    (∃ reason, edit.apply z = .error reason) ↔ edit.needsParent ∧ z.isRoot := by
  cases z using Zipper.placeCases with
  | root node =>
      cases edit <;>
        simp [apply, needsParent, Zipper.isRoot, Zipper.remove, Zipper.insertLeft,
          Zipper.insertRight]
  | child node parent lefts rights rest =>
      obtain ⟨w, hremove⟩ := Zipper.exists_remove node parent lefts rights rest
      cases edit <;>
        simp [apply, needsParent, Zipper.isRoot, hremove, Zipper.insertLeft, Zipper.insertRight]

section Child

variable [LawfulTree α] (focus node : α)

theorem leaves_insertChild :
    (insertChild node).leaves focus =
      Tree.leaves (Tree.rebuild focus (node :: Tree.children focus)) := by
  rw [leaves]
  split
  · next hbranch =>
      rw [Tree.leaves_rebuild hbranch, List.flatMap_cons, ← Tree.leaves_of_branch hbranch]
  · next hleaf =>
      rw [Bool.not_eq_true] at hleaf
      rw [Tree.leaves_rebuild_leaf hleaf, LawfulTree.children_leaf hleaf, List.flatMap_singleton]

theorem leaves_appendChild :
    (appendChild node).leaves focus =
      Tree.leaves (Tree.rebuild focus (Tree.children focus ++ [node])) := by
  rw [leaves]
  split
  · next hbranch =>
      rw [Tree.leaves_rebuild hbranch, List.flatMap_append, List.flatMap_singleton,
        ← Tree.leaves_of_branch hbranch]
  · next hleaf =>
      rw [Bool.not_eq_true] at hleaf
      rw [Tree.leaves_rebuild_leaf hleaf, LawfulTree.children_leaf hleaf, List.nil_append,
        List.flatMap_singleton]

/-- Where among the children the new one stands makes no difference to the number of nodes. -/
theorem nodeCount_child {nodes : List α}
    (hcount :
      Tree.forestCount nodes = Tree.nodeCount node + Tree.forestCount (Tree.children focus)) :
    (if Tree.isBranch focus then Tree.nodeCount focus + Tree.nodeCount node
      else Tree.nodeCount focus + (Tree.nodeCount node + 1)) =
      Tree.nodeCount (Tree.rebuild focus nodes) := by
  split
  · next hbranch =>
      rw [Tree.nodeCount_rebuild hbranch, hcount, Tree.nodeCount_eq_forestCount focus]
      omega
  · next hleaf =>
      rw [Bool.not_eq_true] at hleaf
      rw [LawfulTree.children_leaf hleaf, Tree.forestCount_nil] at hcount
      rw [Tree.nodeCount_rebuild_leaf hleaf, hcount]
      omega

end Child

end Edit

namespace Zipper

open TreeCursor.Tree

variable {α : Type*} [Tree α]

/-- The leaves and nodes of the tree before and after a step, of which the first cursor says where
it was taken: the given leaves for those below the focus, and the given number of nodes for the
focus and those below it. -/
structure Accounts (z w : Zipper α) (given : List α) (count : ℕ) : Prop where
  leaves_before : leaves z.root = leavesBefore z.path ++ leaves z.focus ++ leavesAfter z.path
  leaves_after : leaves w.root = leavesBefore z.path ++ given ++ leavesAfter z.path
  nodeCount_after : nodeCount w.root + nodeCount z.focus = nodeCount z.root + count

variable [LawfulTree α]

theorem accounts_of_root_eq {z w : Zipper α} (hsound : Sound z) (hroot : w.root = z.root) :
    Accounts z w (leaves z.focus) (nodeCount z.focus) where
  leaves_before := leaves_root hsound z.focus
  leaves_after := hroot ▸ leaves_root hsound z.focus
  nodeCount_after := by rw [hroot]

/-- Only the focus is exchanged. -/
theorem accounts_replace {z : Zipper α} (hsound : Sound z) (node : α) :
    Accounts z (z.replace node) (leaves node) (nodeCount node) where
  leaves_before := leaves_root hsound z.focus
  leaves_after := leaves_root hsound node
  nodeCount_after := by
    rw [replace, nodeCount_root hsound node, nodeCount_root hsound z.focus]
    omega

/-- The children of the parent are exchanged. -/
theorem accounts_of_children {node parent : α} {lefts rights nodes : List α}
    {rest : List (Frame α)} {w : Zipper α}
    (hsound : Sound ⟨node, ⟨parent, .ofList lefts, .ofList rights⟩ :: rest⟩)
    (hroot : w.root = root ⟨rebuild parent (lefts.reverse ++ nodes ++ rights), rest⟩) :
    Accounts ⟨node, ⟨parent, .ofList lefts, .ofList rights⟩ :: rest⟩ w
      (nodes.flatMap leaves) (forestCount nodes) where
  leaves_before := leaves_root hsound node
  leaves_after := by
    obtain ⟨hbranch, hrest⟩ := sound_cons.mp hsound
    rw [hroot, leaves_root hrest, leaves_rebuild hbranch]
    simp [leavesBefore, leavesAfter]
  nodeCount_after := by
    obtain ⟨hbranch, hrest⟩ := sound_cons.mp hsound
    change _ + nodeCount node = _
    rw [hroot, nodeCount_root hrest, nodeCount_root hsound, nodeCount_rebuild hbranch,
      forestCount_append, forestCount_append, forestCount_reverse, pathBehind_cons, pathAhead_cons,
      Siblings.toList_ofList, Siblings.toList_ofList]
    omega

/-- What a step keeps is stated of the tree with all pending edits, so that it does not matter which
of them the ancestors have seen. -/
theorem accounts_of_edit {edit : Edit α} {z w : Zipper α} (hsound : Sound z)
    (hedit : edit.apply z = .ok w) :
    Accounts z w (edit.leaves z.focus) (edit.nodeCount z.focus) := by
  cases edit with
  | replace node =>
      cases hedit
      exact accounts_replace hsound node
  | update change =>
      cases hedit
      exact accounts_replace hsound (change z.focus)
  | insertChild node =>
      cases hedit
      rw [Edit.leaves_insertChild, Edit.nodeCount,
        Edit.nodeCount_child z.focus node (forestCount_cons node _)]
      exact accounts_replace hsound _
  | appendChild node =>
      cases hedit
      have hcount : forestCount (children z.focus ++ [node]) =
          nodeCount node + forestCount (children z.focus) := by
        rw [forestCount_append, forestCount_cons, forestCount_nil, Nat.add_zero, Nat.add_comm]
      rw [Edit.leaves_appendChild, Edit.nodeCount, Edit.nodeCount_child z.focus node hcount]
      exact accounts_replace hsound _
  | remove =>
      cases z using placeCases with
      | root node => cases hedit
      | child node parent lefts rights rest =>
          -- the cursor may end below its sibling, but the tree is only short of the focus
          have hremove : remove ⟨node, ⟨parent, .ofList lefts, .ofList rights⟩ :: rest⟩ = .ok w :=
            hedit
          have hroot : w.root = root ⟨rebuild parent (lefts.reverse ++ [] ++ rights), rest⟩ := by
            rw [root_of_remove hremove, List.append_nil]
          exact accounts_of_children hsound hroot
  | insertLeft other =>
      cases z using placeCases with
      | root node => cases hedit
      | child node parent lefts rights rest =>
          cases hedit
          rw [Edit.leaves, Edit.nodeCount, Nat.add_comm]
          have hroot : root ⟨node, ⟨parent, .ofList (other :: lefts), .ofList rights⟩ :: rest⟩ =
              root ⟨rebuild parent (lefts.reverse ++ [other, node] ++ rights), rest⟩ := by
            rw [root_cons, fill_ofList, List.reverse_cons, List.append_assoc, List.append_assoc]
            rfl
          have haccounts := accounts_of_children hsound hroot
          simpa using haccounts
  | insertRight other =>
      cases z using placeCases with
      | root node => cases hedit
      | child node parent lefts rights rest =>
          cases hedit
          rw [Edit.leaves, Edit.nodeCount]
          have hroot : root ⟨node, ⟨parent, .ofList lefts, .ofList (other :: rights)⟩ :: rest⟩ =
              root ⟨rebuild parent (lefts.reverse ++ [node, other] ++ rights), rest⟩ := by
            rw [root_cons, fill_ofList, List.append_assoc]
            rfl
          have haccounts := accounts_of_children hsound hroot
          simpa using haccounts

end Zipper

/-! ## Runs -/

/-- What is done with a cursor: moves and skips, a traversal that changes nothing, and edits. -/
inductive Operation (α : Type*) where
  | move (motion : Motion)
  | traverse
  | edit (change : Edit α)

namespace Operation

open Zipper

variable {α : Type*} [Tree α]

/-- The cursor afterwards.  It is left where it was if there is nothing to move to or the edit is
refused. -/
def perform (z : Zipper α) : Operation α → Zipper α
  | move motion => (motion.apply z).getD z
  | traverse => (z.traverse (Tree.nodeCount z.focus) id).getD z
  | edit change => (change.apply z).toOption.getD z

/-- The cursor after one operation after the other. -/
def run (operations : List (Operation α)) (z : Zipper α) : Zipper α :=
  operations.foldl perform z

/-- The leaves in place of those below the focus. -/
def leaves (z : Zipper α) : Operation α → List α
  | edit change =>
      if change.needsParent ∧ z.isRoot then Tree.leaves z.focus else change.leaves z.focus
  | _ => Tree.leaves z.focus

/-- The number of nodes in place of the focus and those below it. -/
def nodeCount (z : Zipper α) : Operation α → ℕ
  | edit change =>
      if change.needsParent ∧ z.isRoot then Tree.nodeCount z.focus else change.nodeCount z.focus
  | _ => Tree.nodeCount z.focus

/-- The number of nodes after a run, counted along with the operations and never anew. -/
def tally (nodes : ℕ) (z : Zipper α) : List (Operation α) → ℕ
  | [] => nodes
  | operation :: operations =>
      tally (nodes - Tree.nodeCount z.focus + operation.nodeCount z) (operation.perform z)
        operations

variable [LawfulTree α]

theorem perform_traverse (z : Zipper α) : perform z traverse = z := by
  rw [perform, traverse_id le_rfl, Option.getD_some]

/-- A step is accounted for and leaves all frames to branches. -/
theorem accounts_perform {z : Zipper α} (hsound : Sound z) (operation : Operation α) :
    Accounts z (operation.perform z) (operation.leaves z) (operation.nodeCount z) ∧
      Sound (operation.perform z) := by
  cases operation with
  | traverse =>
      rw [perform_traverse]
      exact ⟨accounts_of_root_eq hsound rfl, hsound⟩
  | move motion =>
      rw [perform]
      cases hmove : motion.apply z with
      | none => exact ⟨accounts_of_root_eq hsound rfl, hsound⟩
      | some w =>
          have hreaches := reaches_motion hmove
          exact ⟨accounts_of_root_eq hsound (root_of_reaches hreaches),
            sound_of_reaches hsound hreaches⟩
  | edit change =>
      rw [perform, leaves, nodeCount]
      cases hedit : change.apply z with
      | error reason =>
          have hrefused := Edit.refused_iff.mp ⟨reason, hedit⟩
          rw [if_pos hrefused, if_pos hrefused]
          exact ⟨accounts_of_root_eq hsound rfl, hsound⟩
      | ok w =>
          have hadmits : ¬(change.needsParent ∧ z.isRoot) := by
            rw [← Edit.refused_iff, hedit]
            rintro ⟨reason, hreason⟩
            cases hreason
          rw [if_neg hadmits, if_neg hadmits]
          exact ⟨accounts_of_edit hsound hedit, sound_of_edit hsound hedit⟩

theorem sound_run {z : Zipper α} (hsound : Sound z) (operations : List (Operation α)) :
    Sound (run operations z) := by
  induction operations generalizing z with
  | nil => exact hsound
  | cons operation operations ih => exact ih (accounts_perform hsound operation).2

theorem nodeCount_run {z : Zipper α} (hsound : Sound z) (operations : List (Operation α)) :
    Tree.nodeCount (run operations z).root = tally (Tree.nodeCount z.root) z operations := by
  induction operations generalizing z with
  | nil => rfl
  | cons operation operations ih =>
      obtain ⟨haccounts, hperform⟩ := accounts_perform hsound operation
      have hfocus : Tree.nodeCount z.focus ≤ Tree.nodeCount z.root := by
        have hroot := nodeCount_root hsound z.focus
        change Tree.nodeCount z.root = _ at hroot
        omega
      have hcount : Tree.nodeCount (operation.perform z).root =
          Tree.nodeCount z.root - Tree.nodeCount z.focus + operation.nodeCount z := by
        have hafter := haccounts.nodeCount_after
        omega
      rw [tally, ← hcount]
      exact ih hperform

/-- After any run from the root of a tree, the next operation puts leaves in place of those below
the focus, all other leaves staying where they are, and changes the number of nodes accordingly.
The numbers counted along with the operations are the numbers of nodes that are there.  Nothing is
refused but an edit at the root that needs a parent, and a traversal that changes nothing ends, with
the cursor as it was. -/
theorem run_accounts (tree : α) (operations : List (Operation α)) :
    let z := run operations (ofTree tree)
    (∀ operation : Operation α,
      Accounts z (operation.perform z) (operation.leaves z) (operation.nodeCount z)) ∧
    Tree.nodeCount z.root = tally (Tree.nodeCount tree) (ofTree tree) operations ∧
    (∀ change : Edit α, (∃ reason, change.apply z = .error reason) ↔
      change.needsParent ∧ z.isRoot) ∧
    ∀ visits, Tree.nodeCount z.focus ≤ visits → z.traverse visits id = some z := by
  intro z
  have hsound : Sound z := sound_run (sound_ofTree tree) operations
  refine ⟨?_, ?_, ?_, ?_⟩
  · exact fun operation => (accounts_perform hsound operation).1
  · exact nodeCount_run (sound_ofTree tree) operations
  · exact fun change => Edit.refused_iff
  · exact fun visits => traverse_id

/-- A pair is given a third child and becomes a block, and an object is given something that is no
member and becomes an array.  What is removed or replaced there is all that goes. -/
theorem run_accounts_where_shapes_change :
    let z : Zipper Term :=
      run [.edit (.appendChild (.int 3)), .move (.move .down)] (ofTree (.pair (.int 1) (.int 2)))
    let w : Zipper Document :=
      run [.move (.move .down), .edit (.insertRight .null)]
        (ofTree (.object ⟨[("a", .bool true)], by decide⟩))
    (z.root = .block [.int 1, .int 2, .int 3] ∧
      (perform z (.edit .remove)).root = .block [.int 2, .int 3] ∧
      Accounts z (perform z (.edit .remove)) [] 0 ∧
      z.traverse 1 id = some z) ∧
    (w.root = .array [.entry "a" (.bool true), .null] ∧
      (perform w (.edit (.replace .null))).root = .array [.null, .null] ∧
      Accounts w (perform w (.edit (.replace .null))) [.null] 1 ∧
      w.traverse 3 id = some w) := by
  intro z w
  obtain ⟨hterm, -, -, htraverse⟩ := run_accounts (Term.pair (.int 1) (.int 2))
    [.edit (.appendChild (.int 3)), .move (.move .down)]
  obtain ⟨hdocument, -, -, htraverse'⟩ :=
    run_accounts (Document.object ⟨[("a", .bool true)], by decide⟩)
      [.move (.move .down), .edit (.insertRight .null)]
  have hnull : Tree.leaves Document.null = [.null] := Tree.leaves_of_leaf rfl
  refine ⟨⟨rfl, rfl, hterm (.edit .remove), htraverse 1 le_rfl⟩, rfl, rfl, ?_, htraverse' 3 le_rfl⟩
  rw [← hnull]
  exact hdocument (.edit (.replace .null))

end Operation

end TreeCursor
