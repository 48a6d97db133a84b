import TreeCursor.Proofs.Zipper.Contents
import TreeCursor.Proofs.Zipper.Editing
import TreeCursor.Proofs.Zipper.Search

/-!
# Removals in pre-order

A removal leads one place back in pre-order: to the last place of the subtree of the sibling before
the node, or else to the parent.  The number of places before a cursor is the number of its route in
the pre-order of the tree, and it depends on what stands to the left of the path only, which a
removal leaves as it is.  What stands to the right of the path is left as well, and so a scan goes
on from the new place with what followed the removed subtree.
-/

namespace TreeCursor.Zipper

open TreeCursor.Tree

variable {α : Type*} [Tree α]

/-- The second cursor stands where a removal at the first one leads, one place back in pre-order. -/
structure RemovedTo (z w : Zipper α) : Prop where
  place : nodeAt w.root w.route = some w.focus
  preorderIndex : preorderIndex w.root w.route + 1 = preorderIndex z.root z.route
  nodeCount : nodeCount w.root + nodeCount z.focus = nodeCount z.root
  /-- After a sibling that stays, the place is the last one in pre-order of the sibling's subtree. -/
  sibling : ∀ previous, previousRoute z.route = some previous → ∃ node below,
    nodeAt z.root previous = some node ∧ nodeAt w.root previous = some node ∧
      (routes node).getLast? = some below ∧ w.route = previous ++ below
  /-- Without one it is the parent, rebuilt over the siblings that follow. -/
  parent : previousRoute z.route = none → ∃ frame rest,
    z.path = frame :: rest ∧ w = ⟨rebuild frame.parent z.rights, rest⟩ ∧
      children w.focus = z.rights
  /-- The scan goes on with what followed the removed subtree, if there is anything. -/
  nodes_next : w.next.map nodes = (z.skip .next).map nodes

variable [LawfulTree α]

/-! ## The number of a place -/

/-- The routes below a cursor are an unbroken part of those of its tree, and before them are as many
as there are places before the cursor. -/
theorem exists_routes_root {path : List (Frame α)}
    (hbranches : ∀ frame ∈ path, isBranch frame.parent) (node : α) :
    ∃ before after,
      routes (root ⟨node, path⟩) =
        before ++ ((routes node).map (route ⟨node, path⟩ ++ ·) ++ after) ∧
      before.length = pathBehind path := by
  induction path generalizing node with
  | nil => exact ⟨[], [], by simp [root, route], rfl⟩
  | cons frame rest ih =>
      obtain ⟨parent, left, right⟩ := frame
      obtain ⟨lefts, rfl⟩ := left.exists_eq_ofList
      obtain ⟨rights, rfl⟩ := right.exists_eq_ofList
      obtain ⟨hbranch, hrest⟩ := List.forall_mem_cons.mp hbranches
      let filled := rebuild parent (lefts.reverse ++ node :: rights)
      obtain ⟨before, after, hroutes, hbefore⟩ := ih hrest filled
      have hchildren : children filled = lefts.reverse ++ node :: rights :=
        LawfulTree.children_rebuild hbranch _
      rw [routes_of_children_eq_append hchildren, List.map_append, List.map_append] at hroutes
      refine ⟨before ++ ([] :: routesBelow (fun _ => true) 0 lefts.reverse).map
          (route ⟨filled, rest⟩ ++ ·),
        (routesBelow (fun _ => true) (lefts.reverse.length + 1) rights).map
          (route ⟨filled, rest⟩ ++ ·) ++ after, ?_, ?_⟩
      · rw [root_cons, fill_ofList, hroutes, route_cons node filled, List.map_map]
        simp
      · rw [List.length_append, hbefore, List.length_map, List.length_cons,
          length_routesBelow (fun node _ => length_routes node), forestCount_reverse,
          pathBehind_cons]
        simp only [Siblings.toList_ofList]
        omega

/-- The places of a tree around a cursor. -/
theorem exists_routes_around {z : Zipper α} (hsound : Sound z) :
    ∃ before after, routes z.root = before ++ z.route :: after ∧ before.length = z.behind := by
  obtain ⟨before, after, hroutes, hbefore⟩ := exists_routes_root hsound z.focus
  have hself : routes z.focus = [] :: routesBelow (fun _ => true) 0 (children z.focus) :=
    routesInto_eq z.focus
  rw [hself, List.map_cons, List.append_nil, List.cons_append] at hroutes
  exact ⟨before, _, hroutes, hbefore⟩

/-- The number of a cursor's route in pre-order is the number of places before the cursor. -/
theorem preorderIndex_route {z : Zipper α} (hsound : Sound z) :
    Tree.preorderIndex z.root z.route = z.behind := by
  obtain ⟨before, after, hroutes, hbefore⟩ := exists_routes_around hsound
  have hnodup : (routes z.root).Nodup := nodup_routes z.root
  have hnotMem : z.route ∉ before := by
    rw [hroutes] at hnodup
    intro hmem
    exact (List.nodup_append.mp hnodup).2.2 _ hmem _ List.mem_cons_self rfl
  rw [Tree.preorderIndex, hroutes, List.idxOf_append_of_notMem hnotMem, List.idxOf_cons_self,
    hbefore]
  rfl

/-! ## The scan from a place -/

/-- A scan that goes on is a listing of what lies below the cursor and to the right of its path. -/
theorem elim_nodes_next (z : Zipper α) :
    z.next.elim [] nodes = preorderStack (children z.focus ++ pending z.path) := by
  have hnodes : z.focus :: z.next.elim [] nodes = z.nodes := by
    cases hnext : z.next with
    | none => exact congrArg (List.map focus) (positions_of_next_eq_none hnext).symm
    | some w => exact congrArg (List.map focus) (positions_of_next_eq_some hnext).symm
  rw [nodes_eq_preorderStack, preorderStack_cons] at hnodes
  exact (List.cons.inj hnodes).2

/-- A scan that skips what is below the cursor is a listing of what lies to the right of its path. -/
theorem elim_nodes_skip (z : Zipper α) :
    (z.skip .next).elim [] nodes = preorderStack (pending z.path) := by
  rw [pending_eq_of_skipFrom z.focus, skip]
  cases skipFrom .next z.focus z.path with
  | none => exact preorderStack_nil.symm
  | some w => exact nodes_eq_preorderStack w

theorem nodes_ne_nil (z : Zipper α) : z.nodes ≠ [] := by
  rw [nodes_eq_preorderStack, preorderStack_cons]
  exact List.cons_ne_nil _ _

/-- No scan is without nodes, so that its nodes tell whether there is one. -/
theorem map_nodes_eq_of_elim_eq {first second : Option (Zipper α)}
    (helim : first.elim [] nodes = second.elim [] nodes) : first.map nodes = second.map nodes := by
  cases first with
  | none =>
      cases second with
      | none => rfl
      | some w => exact absurd helim.symm (nodes_ne_nil w)
  | some z =>
      cases second with
      | none => exact absurd helim (nodes_ne_nil z)
      | some w => exact congrArg some helim

/-! ## The landing place -/

/-- Down through last children the cursor passes all places of the subtree but the last one. -/
theorem behind_deepestRightmost_add_one (z : Zipper α) :
    z.deepestRightmost.behind + 1 = z.behind + nodeCount z.focus := by
  have hcount : nodeCount z.deepestRightmost.focus = 1 := by
    rw [nodeCount_eq_forestCount, down_eq_none_iff.mp (down_deepestRightmost z)]
    rfl
  rw [← behind_deepestRightmost, hcount]

section Remove

variable {node parent : α} {lefts rights : List α} {rest : List (Frame α)} {w : Zipper α}
variable (hremove : remove ⟨node, ⟨parent, .ofList lefts, .ofList rights⟩ :: rest⟩ = .ok w)
include hremove

theorem behind_remove :
    w.behind + 1 = behind ⟨node, ⟨parent, .ofList lefts, .ofList rights⟩ :: rest⟩ := by
  cases lefts with
  | nil =>
      rw [remove_nil] at hremove
      cases hremove
      simp [behind, Nat.add_comm]
  | cons sibling lefts =>
      rw [remove_cons] at hremove
      cases hremove
      rw [behind_deepestRightmost_add_one]
      simp only [behind, pathBehind_cons, Siblings.toList_ofList, forestCount_cons]
      omega

variable (hsound : Sound ⟨node, ⟨parent, .ofList lefts, .ofList rights⟩ :: rest⟩)
include hsound

theorem nodeCount_remove :
    nodeCount w.root + nodeCount node =
      nodeCount (root ⟨node, ⟨parent, .ofList lefts, .ofList rights⟩ :: rest⟩) := by
  obtain ⟨hbranch, hrest⟩ := sound_cons.mp hsound
  rw [root_of_remove hremove, root_cons, fill_ofList, nodeCount_root hrest, nodeCount_root hrest,
    nodeCount_rebuild hbranch, nodeCount_rebuild hbranch, forestCount_append, forestCount_append,
    forestCount_cons]
  omega

/-- What is below the new place and to the right of its path is what is to the right of the old. -/
theorem nodes_next_remove :
    w.next.map nodes =
      (skip .next ⟨node, ⟨parent, .ofList lefts, .ofList rights⟩ :: rest⟩).map nodes := by
  apply map_nodes_eq_of_elim_eq
  rw [elim_nodes_skip]
  cases lefts with
  | nil =>
      rw [remove_nil] at hremove
      cases hremove
      rw [elim_nodes_next, LawfulTree.children_rebuild (sound_cons.mp hsound).1]
      change _ = preorderStack ((Siblings.ofList rights).toList ++ pending rest)
      rw [Siblings.toList_ofList]
  | cons sibling lefts =>
      rw [remove_cons] at hremove
      cases hremove
      rw [next, down_deepestRightmost, skip_deepestRightmost]
      exact elim_nodes_skip _

/-- The sibling before the node stays where it is, and the cursor comes to its last place. -/
theorem route_remove_of_previousRoute {previous : List ℕ}
    (hprevious :
      previousRoute (route ⟨node, ⟨parent, .ofList lefts, .ofList rights⟩ :: rest⟩) =
        some previous) :
    ∃ sibling below,
      nodeAt (root ⟨node, ⟨parent, .ofList lefts, .ofList rights⟩ :: rest⟩) previous =
          some sibling ∧
        nodeAt w.root previous = some sibling ∧ (routes sibling).getLast? = some below ∧
        w.route = previous ++ below := by
  rw [route_cons node node] at hprevious
  cases lefts with
  | nil =>
      rw [List.length_nil, previousRoute_append_zero] at hprevious
      cases hprevious
  | cons sibling lefts =>
      rw [remove_cons] at hremove
      cases hremove
      rw [List.length_cons, previousRoute_append_succ] at hprevious
      cases hprevious
      have hroute (right : Siblings α) :
          route ⟨sibling, ⟨parent, .ofList lefts, right⟩ :: rest⟩ =
            route ⟨node, rest⟩ ++ [lefts.length] := route_cons ..
      have hsound' (right : Siblings α) :
          Sound ⟨sibling, ⟨parent, .ofList lefts, right⟩ :: rest⟩ :=
        sound_cons.mpr (sound_cons.mp hsound)
      refine ⟨sibling, lastRoute sibling, ?_, ?_, getLast?_routes sibling, ?_⟩
      · have hleft : Adjacent ⟨node, ⟨parent, .ofList (sibling :: lefts), .ofList rights⟩ :: rest⟩
            ⟨sibling, ⟨parent, .ofList lefts, .ofList (node :: rights)⟩ :: rest⟩ := .left rfl
        rw [← root_of_adjacent hleft, ← hroute (.ofList (node :: rights))]
        exact nodeAt_route (hsound' _)
      · rw [root_of_reaches (reaches_deepestRightmost _), ← hroute (.ofList rights)]
        exact nodeAt_route (hsound' _)
      · rw [route_deepestRightmost, hroute]

theorem eq_parent_of_remove
    (hfirst :
      previousRoute (route ⟨node, ⟨parent, .ofList lefts, .ofList rights⟩ :: rest⟩) = none) :
    w = ⟨rebuild parent rights, rest⟩ ∧ children w.focus = rights := by
  rw [route_cons node node] at hfirst
  cases lefts with
  | nil =>
      rw [remove_nil] at hremove
      cases hremove
      exact ⟨rfl, LawfulTree.children_rebuild (sound_cons.mp hsound).1 rights⟩
  | cons sibling lefts =>
      rw [List.length_cons, previousRoute_append_succ] at hfirst
      cases hfirst

end Remove

/-- Whatever the history of a cursor below the root, a removal succeeds and leads one place back in
pre-order.  The scan from there goes on with what followed the removed subtree. -/
theorem exists_removedTo {tree : α} {z : Zipper α} (hreachable : Reachable tree z)
    (hroot : z.isRoot = false) : ∃ w, z.remove = .ok w ∧ RemovedTo z w := by
  have hsound : Sound z := sound_of_reachable hreachable
  cases z using placeCases with
  | root node => cases hroot
  | child node parent lefts rights rest =>
      obtain ⟨w, hremove⟩ := exists_remove node parent lefts rights rest
      have hedit : Edit.remove.apply ⟨node, ⟨parent, .ofList lefts, .ofList rights⟩ :: rest⟩ =
          .ok w := hremove
      have hsound' : Sound w := sound_of_edit hsound hedit
      refine ⟨w, hremove, ?_⟩
      constructor
      case place => exact nodeAt_route hsound'
      case preorderIndex =>
        rw [preorderIndex_route hsound', preorderIndex_route hsound]
        exact behind_remove hremove
      case nodeCount => exact nodeCount_remove hremove hsound
      case sibling =>
        intro previous hprevious
        exact route_remove_of_previousRoute hremove hsound hprevious
      case parent =>
        intro hfirst
        rw [rights_child]
        exact ⟨_, rest, rfl, eq_parent_of_remove hremove hsound hfirst⟩
      case nodes_next => exact nodes_next_remove hremove hsound

/-- In a pair that will be a block the node to be removed comes after a sibling with a child of its
own.  In an object that will be an array it is the first child, and without it the object stays. -/
theorem exists_removedTo_beside_insertions :
    (Reachable (Term.pair (.int 1) (.int 2))
        ⟨.int 2, [⟨.pair (.int 1) (.int 2), .ofList [.list [.int 7], .int 1], .ofList []⟩]⟩ ∧
      ∃ w, remove (⟨.int 2, [⟨.pair (.int 1) (.int 2), .ofList [.list [.int 7], .int 1],
          .ofList []⟩]⟩ : Zipper Term) = .ok w ∧
        Tree.preorderIndex w.root w.route = 3 ∧ Tree.nodeCount w.root = 4 ∧
        w.next.map nodes = none) ∧
    (Reachable (Document.object ⟨[("a", .null)], by decide⟩)
        ⟨.string "c", [⟨.object ⟨[("a", .null)], by decide⟩,
          .ofList [], .ofList [.entry "a" .null]⟩]⟩ ∧
      ∃ w, remove (⟨.string "c", [⟨.object ⟨[("a", .null)], by decide⟩,
          .ofList [], .ofList [.entry "a" .null]⟩]⟩ : Zipper Document) = .ok w ∧
        w = ofTree (.object ⟨[("a", .null)], by decide⟩)) := by
  have hterm : Reachable (Term.pair (.int 1) (.int 2))
      ⟨.int 2, [⟨.pair (.int 1) (.int 2), .ofList [.list [.int 7], .int 1], .ofList []⟩]⟩ :=
    .edit (.insertLeft (.list [.int 7]))
      (.move (.move .right) (.move (.move .down) .start rfl) rfl) rfl
  have hdocument : Reachable (Document.object ⟨[("a", .null)], by decide⟩)
      ⟨.string "c", [⟨.object ⟨[("a", .null)], by decide⟩,
        .ofList [], .ofList [.entry "a" .null]⟩]⟩ :=
    .move (.move .left) (.edit (.insertLeft (.string "c")) (.move (.move .down) .start rfl) rfl) rfl
  obtain ⟨w, hw, hremoved⟩ := exists_removedTo hterm rfl
  obtain ⟨v, hv, hremoved'⟩ := exists_removedTo hdocument rfl
  refine ⟨⟨hterm, w, hw, ?_, ?_, hremoved.nodes_next⟩, hdocument, v, hv, ?_⟩
  · have hindex := hremoved.preorderIndex
    rw [preorderIndex_route (sound_of_reachable hterm)] at hindex
    exact Nat.succ.inj hindex
  · exact Nat.succ.inj hremoved.nodeCount
  · obtain ⟨frame, rest, hpath, hparent, -⟩ := hremoved'.parent rfl
    cases hpath
    exact hparent

end TreeCursor.Zipper
