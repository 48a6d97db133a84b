import TreeCursor.Proofs.Json.Lawful
import TreeCursor.Proofs.Term.Lawful
import TreeCursor.Proofs.Tree.Preorder
import TreeCursor.Proofs.Zipper.Reachable
import TreeCursor.Proofs.Zipper.Walk

/-!
# Traversals that insert nodes

What is inserted before the cursor is behind it, and so the walk never comes to it.  While the walk is
below a node, what has been inserted before that node waits to its left, and all of it gets into the
parent at once when the walk leaves the last child.
-/

namespace TreeCursor

namespace Tree

variable {α : Type*} [Tree α] (g : α → List α)

/-- The tree in which every node below the root has before it what a function gives for the node. -/
def expand (node : α) : α :=
  if (children node).isEmpty then
    node
  else
    rebuild node ((children node).attach.flatMap fun child => g child.val ++ [expand child.val])
termination_by nodeCount node
decreasing_by exact nodeCount_lt_of_mem_children child.property

def expandAll (nodes : List α) : List α :=
  nodes.flatMap fun node => g node ++ [expand g node]

variable {g}

theorem expand_of_leaf {node : α} (hchildren : children node = []) : expand g node = node := by
  rw [expand, hchildren]
  rfl

theorem expand_of_branch {node : α} (hchildren : children node ≠ []) :
    expand g node = rebuild node (expandAll g (children node)) := by
  rw [expand, if_neg (by simpa using hchildren), expandAll]
  conv => rhs; rw [← List.attach_map_subtype_val (children node), List.flatMap_map]

theorem expandAll_cons (node : α) (nodes : List α) :
    expandAll g (node :: nodes) = g node ++ expand g node :: expandAll g nodes := by
  rw [expandAll, List.flatMap_cons, List.append_assoc]
  rfl

end Tree

namespace Zipper

open TreeCursor.Tree

variable {α : Type*} [Tree α] (g : α → List α)

/-- The visitor that inserts before a node what the function gives for it, one after the other, unless
the node is the root. -/
def inserter (z : Zipper α) : Zipper α :=
  if z.isRoot then z else ((g z.focus).foldlM insertLeft z).toOption.getD z

/-- The same visitor as a traversal hands it on, with a record of the nodes that it is handed. -/
abbrev recordedInserter : Zipper α → Unit × List α → Control (Zipper α × (Unit × List α)) :=
  recorded fun w _ => .proceed (inserter g w, ())

omit [Tree α] in
/-- What is inserted one after the other stands in this order before the cursor. -/
theorem foldlM_insertLeft (node parent : α) (nodes lefts : List α) (right : Siblings α)
    (rest : List (Frame α)) :
    nodes.foldlM insertLeft ⟨node, ⟨parent, .ofList lefts, right⟩ :: rest⟩ =
      .ok ⟨node, ⟨parent, .ofList (nodes.reverse ++ lefts), right⟩ :: rest⟩ := by
  induction nodes generalizing lefts with
  | nil => rfl
  | cons first nodes ih =>
      rw [List.reverse_cons, List.append_assoc, List.singleton_append]
      exact ih (first :: lefts)

variable {g}

/-- A call of the visitor leaves the walk at the same node. -/
theorem walk_inserter (visits : ℕ) (node parent : α) (lefts : List α) (right : Siblings α)
    (rest : List (Frame α)) (seen : List α) :
    walk (recordedInserter g) (visits + 1) ⟨node, ⟨parent, .ofList lefts, right⟩ :: rest⟩
        ((), seen) =
      advance (recordedInserter g) visits
        ⟨node, ⟨parent, .ofList ((g node).reverse ++ lefts), right⟩ :: rest⟩
        ((), seen ++ [node]) := by
  have hinserter : inserter g ⟨node, ⟨parent, .ofList lefts, right⟩ :: rest⟩ =
      ⟨node, ⟨parent, .ofList ((g node).reverse ++ lefts), right⟩ :: rest⟩ := by
    rw [inserter, if_neg (by simp [isRoot]), foldlM_insertLeft]
    rfl
  rw [← hinserter]
  exact walk_of_proceed _ visits rfl

variable (g) in
/-- Once a node has been visited, the walk expands all below it, wherever the node stands. -/
def Expands (node : α) : Prop :=
  ∀ visits path seen,
    advance (recordedInserter g) (visits + forestCount (children node)) ⟨node, path⟩ ((), seen) =
      resume (recordedInserter g) visits ⟨expand g node, path⟩
        ((), seen ++ (children node).flatMap preorder)

/-- The visit of a node below the root and the walk below it. -/
theorem walk_of_expands {node : α} (hnode : Expands g node) (visits : ℕ) (parent : α)
    (lefts : List α) (right : Siblings α) (rest : List (Frame α)) (seen : List α) :
    walk (recordedInserter g) (visits + nodeCount node)
        ⟨node, ⟨parent, .ofList lefts, right⟩ :: rest⟩ ((), seen) =
      resume (recordedInserter g) visits
        ⟨expand g node, ⟨parent, .ofList ((g node).reverse ++ lefts), right⟩ :: rest⟩
        ((), seen ++ preorder node) := by
  rw [nodeCount_eq_forestCount, Nat.add_comm 1, ← Nat.add_assoc, walk_inserter, hnode, preorder_eq,
    List.append_assoc, List.singleton_append]

/-- The siblings on the left are those that have been expanded, each after what was inserted before
it, and those from the focus on are still as they were. -/
theorem walk_siblings (visits : ℕ) {node : α} (parent : α) {others : List α}
    (rest : List (Frame α)) (hnodes : ∀ sibling ∈ node :: others, Expands g sibling)
    (lefts seen : List α) :
    walk (recordedInserter g) (visits + forestCount (node :: others))
        ⟨node, ⟨parent, .ofList lefts, .ofList others⟩ :: rest⟩ ((), seen) =
      resume (recordedInserter g) visits
        ⟨rebuild parent (lefts.reverse ++ expandAll g (node :: others)), rest⟩
        ((), seen ++ (node :: others).flatMap preorder) := by
  induction others generalizing node lefts seen with
  | nil =>
      obtain ⟨hnode, -⟩ := List.forall_mem_cons.mp hnodes
      rw [forestCount_cons, forestCount_nil, Nat.add_zero, walk_of_expands hnode, resume_parent,
        List.reverse_append, List.reverse_reverse, List.append_assoc, expandAll_cons,
        List.flatMap_singleton]
      rfl
  | cons sibling others ih =>
      obtain ⟨hnode, hothers⟩ := List.forall_mem_cons.mp hnodes
      rw [forestCount_cons, Nat.add_comm (nodeCount node), ← Nat.add_assoc, walk_of_expands hnode,
        resume_sibling, ih hothers, expandAll_cons node]
      simp only [List.flatMap_cons, List.reverse_cons, List.reverse_append, List.reverse_reverse,
        List.append_assoc, List.singleton_append]

/-- The walk expands what is below a node, since it does so at its children.  The node is rebuilt
once, from the template that it was. -/
theorem expands [LawfulTree α] (node : α) : Expands g node := by
  induction node using children_induction with
  | hstep node ih =>
      intro visits path seen
      cases hchildren : children node with
      | nil =>
          rw [advance_of_leaf _ _ _ (down_eq_none_iff.mpr hchildren), expand_of_leaf hchildren,
            List.flatMap_nil, List.append_nil]
          rfl
      | cons first others =>
          rw [hchildren] at ih
          have hne : children node ≠ [] := hchildren ▸ List.cons_ne_nil first others
          rw [advance_of_down _ _ _ (down_of_children path hchildren),
            walk_siblings visits node path ih, List.reverse_nil, List.nil_append,
            expand_of_branch hne, hchildren]

/-- A traversal that inserts before each node below the root what a function gives for the node ends
and leaves the subtree in focus with all of it, in its place.  The visitor is handed the nodes of the
subtree as they were, once each and in pre-order, and never one that was inserted. -/
theorem traverse_expands [LawfulTree α] (g : α → List α) (z : Zipper α) {visits : ℕ}
    (hvisits : nodeCount z.focus ≤ visits) :
    traverse visits (inserter g) z = some (z.replace (expand g z.focus)) ∧
    traverseWhileWith visits (recordedInserter g) ((), []) z =
      some (z.replace (expand g z.focus), ((), preorder z.focus)) := by
  have hroot : inserter g ⟨z.focus, []⟩ = ⟨z.focus, []⟩ := by simp [inserter, isRoot]
  have hrecorded : traverseWhileWith visits (recordedInserter g) ((), []) z =
      some (z.replace (expand g z.focus), ((), preorder z.focus)) := by
    obtain ⟨more, rfl⟩ := Nat.exists_eq_add_of_le' hvisits
    have hvisit : recordedInserter g ⟨z.focus, []⟩ ((), []) =
        .proceed (⟨z.focus, []⟩, ((), [z.focus])) :=
      congrArg (fun w => Control.proceed (w, ((), [z.focus]))) hroot
    rw [traverseWhileWith_eq, ofTree, nodeCount_eq_forestCount, Nat.add_comm 1, ← Nat.add_assoc,
      walk_of_proceed _ _ hvisit, expands, resume_root, preorder_eq]
    rfl
  refine ⟨?_, hrecorded⟩
  rw [traverse, traverseWith_eq, traverseWhileWith_of_recorded hrecorded]
  rfl

def beforeInt : Term → List Term
  | .int value => [.str "next", .int (value + 1)]
  | _ => []

def beforeLeaf (node : Document) : List Document :=
  if isBranch node then [] else [.null]

/-- A pair and the list in it get two nodes before each number, so that the pair becomes a block.  The
entry of an object gets a node before its key and one before its value, so that the object becomes an
array. -/
theorem traverse_expands_pair_and_object :
    (nodeCount (Term.pair (.int 1) (.list [.int 2])) ≤ 4 ∧
      expand beforeInt (.pair (.int 1) (.list [.int 2])) =
        .block [.str "next", .int 2, .int 1, .list [.str "next", .int 3, .int 2]] ∧
      traverseWhileWith 4 (recordedInserter beforeInt) ((), [])
          ⟨.pair (.int 1) (.list [.int 2]), [⟨.list [], .ofList [.int 7], .ofList []⟩]⟩ =
        some (⟨.block [.str "next", .int 2, .int 1, .list [.str "next", .int 3, .int 2]],
            [⟨.list [], .ofList [.int 7], .ofList []⟩]⟩,
          ((), [.pair (.int 1) (.list [.int 2]), .int 1, .list [.int 2], .int 2]))) ∧
    (nodeCount (Document.object ⟨[("a", .bool true)], by decide⟩) ≤ 4 ∧
      traverse 4 (inserter beforeLeaf)
          (ofTree (Document.object ⟨[("a", .bool true)], by decide⟩)) =
        some (ofTree (.array [.array [.null, .string "a", .null, .bool true]]))) := by
  have hpair : nodeCount (Term.pair (.int 1) (.list [.int 2])) ≤ 4 := by decide
  have hobject : nodeCount (Document.object ⟨[("a", .bool true)], by decide⟩) ≤ 4 := by decide
  obtain ⟨-, hrecorded⟩ := traverse_expands beforeInt
    ⟨_, [⟨.list [], .ofList [.int 7], .ofList []⟩]⟩ hpair
  obtain ⟨htraverse, -⟩ := traverse_expands beforeLeaf (ofTree _) hobject
  have hblock : expand beforeInt (.pair (.int 1) (.list [.int 2])) =
      .block [.str "next", .int 2, .int 1, .list [.str "next", .int 3, .int 2]] :=
    congrArg (fun outcome => outcome.1.focus) (Option.some.inj hrecorded.symm)
  have hseen : preorder (Term.pair (.int 1) (.list [.int 2])) =
      [.pair (.int 1) (.list [.int 2]), .int 1, .list [.int 2], .int 2] :=
    congrArg (fun outcome => outcome.2.2) (Option.some.inj hrecorded.symm)
  have harray : expand beforeLeaf (.object ⟨[("a", .bool true)], by decide⟩) =
      .array [.array [.null, .string "a", .null, .bool true]] :=
    congrArg focus (Option.some.inj htraverse.symm)
  refine ⟨⟨hpair, hblock, ?_⟩, hobject, ?_⟩
  · rw [hrecorded, hseen, hblock]
    rfl
  · exact htraverse.trans (congrArg (fun node => some (ofTree node)) harray)

end Zipper

end TreeCursor
