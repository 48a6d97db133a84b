import TreeCursor.Proofs.Json.Lawful
import TreeCursor.Proofs.Term.Lawful
import TreeCursor.Proofs.Tree.Route
import TreeCursor.Proofs.Zipper.Reachable
import TreeCursor.Proofs.Zipper.Walk

/-!
# Traversals that remove nodes

A removal takes the cursor back to the place before the node, and the walk goes on from there.  If
that place is in the subtree of a sibling, all of it has been visited, and the walk comes to the
next sibling.  If it is the parent, then the first child is gone and the walk comes to the next one.
So every node is visited once, unless a node above it has been removed.
-/

namespace TreeCursor

namespace Tree

variable {α : Type*} [Tree α] (p : α → Bool)

/-- The tree without the subtrees below the root whose first node satisfies the predicate. -/
def prune (node : α) : α :=
  if (children node).isEmpty then
    node
  else
    rebuild node
      (((children node).attach.filter fun child => !p child.val).map fun child => prune child.val)
termination_by nodeCount node
decreasing_by exact nodeCount_lt_of_mem_children child.property

def pruneAll (nodes : List α) : List α :=
  (nodes.filter fun node => !p node).map (prune p)

/-- The nodes of a tree that are not below a removed one, in pre-order. -/
def visited (node : α) : List α :=
  (routesInto (fun node => !p node) node).filterMap (nodeAt node)

def visitedAll (nodes : List α) : List α :=
  nodes.flatMap fun node => if p node then [node] else visited p node

variable {p}

theorem prune_of_leaf {node : α} (hchildren : children node = []) : prune p node = node := by
  rw [prune, hchildren]
  rfl

theorem prune_of_branch {node : α} (hchildren : children node ≠ []) :
    prune p node = rebuild node (pruneAll p (children node)) := by
  rw [prune, if_neg (by simpa using hchildren), pruneAll]
  conv => rhs; rw [← List.attach_map_subtype_val (children node)]
  rw [List.filter_map, List.map_map]
  rfl

theorem length_pruneAll (nodes : List α) : (pruneAll p nodes).length ≤ nodes.length := by
  rw [pruneAll, List.length_map]
  exact List.length_filter_le _ nodes

theorem pruneAll_cons_of_removed {node : α} (nodes : List α) (hnode : p node) :
    pruneAll p (node :: nodes) = pruneAll p nodes := by
  simp [pruneAll, hnode]

theorem pruneAll_cons_of_kept {node : α} (nodes : List α) (hnode : ¬p node) :
    pruneAll p (node :: nodes) = prune p node :: pruneAll p nodes := by
  simp [pruneAll, hnode]

theorem visitedAll_cons_of_removed {node : α} (nodes : List α) (hnode : p node) :
    visitedAll p (node :: nodes) = node :: visitedAll p nodes := by
  simp [visitedAll, hnode]

/-- Below a node the last of its children are visited one after the other. -/
theorem filterMap_nodeAt_routesBelow {parent : α} (before : List α) {nodes : List α}
    (hchildren : children parent = before ++ nodes) :
    (routesBelow (fun node => !p node) before.length nodes).filterMap (nodeAt parent) =
      visitedAll p nodes := by
  induction nodes generalizing before with
  | nil =>
      rw [routesBelow_nil]
      rfl
  | cons node nodes ih =>
      have hnodeAt : nodeAt parent ∘ (before.length :: ·) = nodeAt node := by
        funext route
        rw [Function.comp_apply, nodeAt_cons, hchildren, List.getElem?_append_right le_rfl,
          Nat.sub_self, List.getElem?_cons_zero, Option.bind_some]
      have hothers := ih (before ++ [node]) (by rw [hchildren, List.append_assoc]; rfl)
      rw [List.length_append, List.length_singleton] at hothers
      rw [routesBelow_cons, List.filterMap_append, List.filterMap_map, hnodeAt, hothers]
      by_cases hnode : p node
      · simp [visitedAll, hnode]
      · simp [visitedAll, hnode, visited]

theorem visited_eq (node : α) : visited p node = node :: visitedAll p (children node) := by
  rw [visited, routesInto_eq]
  exact congrArg (node :: ·) (filterMap_nodeAt_routesBelow [] rfl)

theorem visitedAll_cons_of_kept {node : α} (nodes : List α) (hnode : ¬p node) :
    visitedAll p (node :: nodes) =
      node :: (visitedAll p (children node) ++ visitedAll p nodes) := by
  rw [visitedAll, List.flatMap_cons, if_neg hnode, visited_eq]
  rfl

theorem add_length_visitedAll_cons (visits : ℕ) {node : α} (nodes : List α) (hnode : ¬p node) :
    visits + (visitedAll p (node :: nodes)).length =
      visits + (visitedAll p nodes).length + (visitedAll p (children node)).length + 1 := by
  rw [visitedAll_cons_of_kept nodes hnode, List.length_cons, List.length_append]
  omega

theorem length_visitedAll {nodes : List α}
    (hnodes : ∀ node ∈ nodes, (visited p node).length ≤ nodeCount node) :
    (visitedAll p nodes).length ≤ forestCount nodes := by
  induction nodes with
  | nil => exact Nat.zero_le _
  | cons node nodes ih =>
      obtain ⟨hfirst, hnodes⟩ := List.forall_mem_cons.mp hnodes
      rw [visitedAll, List.flatMap_cons, List.length_append, forestCount_cons]
      apply Nat.add_le_add _ (ih hnodes)
      split
      · exact nodeCount_pos node
      · exact hfirst

/-- There is a node to be visited at the end of every route. -/
theorem map_some_visited (node : α) :
    (visited p node).map some = (routesInto (fun node => !p node) node).map (nodeAt node) := by
  rw [visited, List.map_filterMap, List.filterMap_eq_map_iff_forall_eq_some]
  intro route hroute
  obtain ⟨place, hplace⟩ := Option.isSome_iff_exists.mp (mem_routesInto.mp hroute).1
  rw [hplace]
  rfl

theorem length_visited (node : α) : (visited p node).length ≤ nodeCount node := by
  induction node using children_induction with
  | hstep node ih =>
      rw [visited_eq, List.length_cons]
      exact (length_visitedAll ih).trans_lt (forestCount_children_lt node)

end Tree

namespace Zipper

open TreeCursor.Tree

variable {α : Type*} [Tree α] (p : α → Bool)

/-- The visitor that removes a node unless it is the root. -/
def pruner (z : Zipper α) : Zipper α :=
  if p z.focus && !z.isRoot then z.remove.toOption.getD z else z

/-- The same visitor as a traversal hands it on, with a record of the nodes that it is handed. -/
abbrev recordedPruner : Zipper α → Unit × List α → Control (Zipper α × (Unit × List α)) :=
  recorded fun w _ => .proceed (pruner p w, ())

section Visits

variable {p} (visits : ℕ) {node : α} (parent : α) (lefts rights : List α) (rest : List (Frame α))
variable (seen : List α)

theorem walk_pruner (z : Zipper α) :
    walk (recordedPruner p) (visits + 1) z ((), seen) =
      advance (recordedPruner p) visits (pruner p z) ((), seen ++ [z.focus]) :=
  walk_of_proceed _ visits rfl

theorem walk_of_kept (hnode : ¬p node) (path : List (Frame α)) :
    walk (recordedPruner p) (visits + 1) ⟨node, path⟩ ((), seen) =
      advance (recordedPruner p) visits ⟨node, path⟩ ((), seen ++ [node]) := by
  rw [walk_pruner, pruner, if_neg (by simp [hnode])]

/-- With a sibling before it, a node that is removed leaves the walk after that sibling. -/
theorem walk_of_removed [LawfulTree α] (hnode : p node) (sibling : α) :
    walk (recordedPruner p) (visits + 1)
        ⟨node, ⟨parent, .ofList (sibling :: lefts), .ofList rights⟩ :: rest⟩ ((), seen) =
      resume (recordedPruner p) visits
        ⟨sibling, ⟨parent, .ofList lefts, .ofList rights⟩ :: rest⟩ ((), seen ++ [node]) := by
  rw [walk_pruner, pruner, if_pos (by simpa [isRoot] using hnode), remove_cons]
  exact advance_deepestRightmost _ visits _ _

/-- Without one, it leaves the walk at the parent. -/
theorem walk_of_removed_first (hnode : p node) :
    walk (recordedPruner p) (visits + 1)
        ⟨node, ⟨parent, .ofList [], .ofList rights⟩ :: rest⟩ ((), seen) =
      advance (recordedPruner p) visits ⟨rebuild parent rights, rest⟩ ((), seen ++ [node]) := by
  rw [walk_pruner, pruner, if_pos (by simpa [isRoot] using hnode), remove_nil]
  rfl

end Visits

/-- Once a node has been visited, the walk prunes all below it, wherever the node stands. -/
def Prunes (node : α) : Prop :=
  ∀ visits path seen,
    advance (recordedPruner p) (visits + (visitedAll p (children node)).length) ⟨node, path⟩
        ((), seen) =
      resume (recordedPruner p) visits ⟨prune p node, path⟩
        ((), seen ++ visitedAll p (children node))

section Siblings

variable {p} [LawfulTree α] (visits : ℕ) (rest : List (Frame α)) {nodes : List α}

/-- From after a node that stays, the walk prunes the siblings after it. -/
theorem resume_siblings (parent : α) (hnodes : ∀ node ∈ nodes, Prunes p node) (sibling : α)
    (lefts seen : List α) :
    resume (recordedPruner p) (visits + (visitedAll p nodes).length)
        ⟨sibling, ⟨parent, .ofList lefts, .ofList nodes⟩ :: rest⟩ ((), seen) =
      resume (recordedPruner p) visits
        ⟨rebuild parent (lefts.reverse ++ sibling :: pruneAll p nodes), rest⟩
        ((), seen ++ visitedAll p nodes) := by
  induction nodes generalizing sibling lefts seen with
  | nil =>
      rw [resume_parent]
      simp [visitedAll, pruneAll]
  | cons node nodes ih =>
      obtain ⟨hfirst, hothers⟩ := List.forall_mem_cons.mp hnodes
      by_cases hnode : p node
      · rw [visitedAll_cons_of_removed nodes hnode, pruneAll_cons_of_removed nodes hnode,
          List.length_cons, ← Nat.add_assoc, resume_sibling,
          walk_of_removed _ parent lefts nodes rest seen hnode, ih hothers,
          List.append_assoc, List.singleton_append]
      · rw [add_length_visitedAll_cons visits nodes hnode, resume_sibling,
          walk_of_kept _ seen hnode, hfirst, ih hothers, visitedAll_cons_of_kept nodes hnode,
          pruneAll_cons_of_kept nodes hnode]
        simp only [List.reverse_cons, List.append_assoc, List.cons_append, List.nil_append]

/-- From a parent whose first children may be gone, the walk prunes the children that it has.  As
long as the first of them goes, the walk is back at the parent. -/
theorem advance_children {parent : α} (hbranch : isBranch parent)
    (hchildren : children parent = nodes) (hnodes : ∀ node ∈ nodes, Prunes p node)
    (seen : List α) :
    advance (recordedPruner p) (visits + (visitedAll p nodes).length) ⟨parent, rest⟩ ((), seen) =
      resume (recordedPruner p) visits ⟨rebuild parent (pruneAll p nodes), rest⟩
        ((), seen ++ visitedAll p nodes) := by
  induction nodes generalizing parent seen with
  | nil =>
      have hparent := LawfulTree.rebuild_children hbranch
      rw [hchildren] at hparent
      rw [advance_of_leaf _ _ _ (down_eq_none_iff.mpr hchildren)]
      simp [visitedAll, pruneAll, hparent]
  | cons node nodes ih =>
      obtain ⟨hfirst, hothers⟩ := List.forall_mem_cons.mp hnodes
      rw [advance_of_down _ _ _ (down_of_children rest hchildren)]
      by_cases hnode : p node
      · -- What is left of the parent is rebuilt at once, perhaps in another shape, and again later.
        have hrebuild : rebuild (rebuild parent nodes) (pruneAll p nodes) =
            rebuild parent (pruneAll p nodes) :=
          LawfulTree.rebuild_rebuild_suffix hbranch (hchildren ▸ List.suffix_cons node nodes)
            (length_pruneAll nodes)
        rw [visitedAll_cons_of_removed nodes hnode, pruneAll_cons_of_removed nodes hnode,
          List.length_cons, ← Nat.add_assoc, walk_of_removed_first _ parent nodes rest seen hnode,
          ih (LawfulTree.isBranch_rebuild parent nodes)
            (LawfulTree.children_rebuild hbranch nodes) hothers,
          hrebuild, List.append_assoc, List.singleton_append]
      · rw [add_length_visitedAll_cons visits nodes hnode, walk_of_kept _ seen hnode, hfirst,
          resume_siblings _ _ _ hothers, visitedAll_cons_of_kept nodes hnode,
          pruneAll_cons_of_kept nodes hnode]
        simp only [List.reverse_nil, List.append_assoc, List.cons_append, List.nil_append]

end Siblings

theorem prunes [LawfulTree α] (node : α) : Prunes p node := by
  induction node using children_induction with
  | hstep node ih =>
      intro visits path seen
      by_cases hchildren : children node = []
      · rw [advance_of_leaf _ _ _ (down_eq_none_iff.mpr hchildren), prune_of_leaf hchildren,
          hchildren]
        simp [visitedAll]
      · rw [advance_children visits path (isBranch_of_children_ne_nil hchildren) rfl ih,
          prune_of_branch hchildren]

theorem traverseWhileWith_recordedPruner [LawfulTree α] (z : Zipper α) {visits : ℕ}
    (hvisits : nodeCount z.focus ≤ visits) :
    traverseWhileWith visits (recordedPruner p) ((), []) z =
      some (z.replace (prune p z.focus), ((), visited p z.focus)) := by
  have hlength : (visited p z.focus).length ≤ visits := (length_visited z.focus).trans hvisits
  obtain ⟨more, rfl⟩ := Nat.exists_eq_add_of_le' hlength
  have hroot : pruner p ⟨z.focus, []⟩ = ⟨z.focus, []⟩ := by simp [pruner, isRoot]
  rw [traverseWhileWith_eq, ofTree, visited_eq, List.length_cons, ← Nat.add_assoc, walk_pruner,
    hroot, prunes, resume_root]
  rfl

/-- A traversal that removes the nodes with a property ends and leaves the subtree in focus without
them and all below them, in its place.  The visitor is handed the nodes that are not below a removed
one as they were, once each and in pre-order. -/
theorem traverse_prunes [LawfulTree α] (z : Zipper α) {visits : ℕ}
    (hvisits : nodeCount z.focus ≤ visits) :
    traverse visits (pruner p) z = some (z.replace (prune p z.focus)) ∧
    ∃ (seen : List α) (places : List (List ℕ)),
      traverseWhileWith visits (recordedPruner p) ((), []) z =
        some (z.replace (prune p z.focus), ((), seen)) ∧
      seen.map some = places.map (nodeAt z.focus) ∧
      places.Pairwise (· < ·) ∧
      ∀ route, route ∈ places ↔ (nodeAt z.focus route).isSome ∧
        ∀ above below node, route = above ++ below → above ≠ [] → below ≠ [] →
          nodeAt z.focus above = some node → ¬p node := by
  have hrecorded := traverseWhileWith_recordedPruner p z hvisits
  constructor
  · rw [traverse, traverseWith_eq, ← traverseWhileWith_recorded _ visits ((), []), hrecorded]
    rfl
  · refine ⟨visited p z.focus, routesInto (fun node => !p node) z.focus, hrecorded,
      map_some_visited z.focus, pairwise_routesInto z.focus, ?_⟩
    intro route
    rw [mem_routesInto]
    simp [Enters]

def isOne (term : Term) : Bool :=
  term.int? == some 1

/-- A pair loses its first child, and so does the call in what is left of it.  An object below an
array loses the key and the value of its member, and so it becomes an array too. -/
theorem traverse_prunes_pair_and_object :
    (nodeCount (Term.pair (.int 1) (.call "f" [.int 1, .int 2])) ≤ 5 ∧
      prune isOne (.pair (.int 1) (.call "f" [.int 1, .int 2])) = .block [.call "f" [.int 2]] ∧
      ∃ places : List (List ℕ), places.Pairwise (· < ·) ∧
        [Term.pair (.int 1) (.call "f" [.int 1, .int 2]), .int 1, .call "f" [.int 1, .int 2],
            .int 1, .int 2].map some =
          places.map (nodeAt (.pair (.int 1) (.call "f" [.int 1, .int 2])))) ∧
    (nodeCount (Document.object ⟨[("a", .bool true)], by decide⟩) ≤ 4 ∧
      prune (fun node => !isBranch node) (Document.object ⟨[("a", .bool true)], by decide⟩) =
        .array [.array []] ∧
      traverse 4 (pruner fun node => !isBranch node)
          ⟨Document.object ⟨[("a", .bool true)], by decide⟩,
            [⟨.array [], .ofList [.null], .ofList []⟩]⟩ =
        some ⟨.array [.array []], [⟨.array [], .ofList [.null], .ofList []⟩]⟩) := by
  have hpair : nodeCount (Term.pair (.int 1) (.call "f" [.int 1, .int 2])) ≤ 5 := by decide
  have hobject : nodeCount (Document.object ⟨[("a", .bool true)], by decide⟩) ≤ 4 := by decide
  obtain ⟨hterm, seen, places, hrecorded, hseen, hplaces, -⟩ :=
    traverse_prunes isOne (ofTree _) hpair
  have hnodes : seen = [.pair (.int 1) (.call "f" [.int 1, .int 2]), .int 1,
      .call "f" [.int 1, .int 2], .int 1, .int 2] :=
    congrArg (fun outcome => outcome.2.2) (Option.some.inj hrecorded.symm)
  rw [hnodes] at hseen
  have hdocument := (traverse_prunes (fun node => !isBranch node)
    ⟨Document.object ⟨[("a", .bool true)], by decide⟩,
      [⟨.array [], .ofList [.null], .ofList []⟩]⟩ hobject).1
  have harray : prune (fun node => !isBranch node)
      (Document.object ⟨[("a", .bool true)], by decide⟩) = .array [.array []] :=
    congrArg focus (Option.some.inj hdocument.symm)
  refine ⟨⟨hpair, congrArg focus (Option.some.inj hterm.symm), places, hplaces, hseen⟩,
    hobject, harray, ?_⟩
  rw [hdocument, harray]
  rfl

end Zipper

end TreeCursor
