import TreeCursor.Proofs.Zipper.Navigation

/-!
# Edits as edits of the tree at a route

An edit at the cursor, folded up to the root, is the edit of the tree at the cursor's route that
rebuilds every node on the way.  As long as only moves led to the cursor the two trees are the same.
With other edits pending, a node on the way may be rebuilt from a parent whose shape the folded tree
has lost, so that the trees agree once every shape is read as the one it falls back to.
-/

namespace TreeCursor

open TreeCursor.Tree

section Reference

variable {α : Type*} [Tree α]

/-- The place before a node once it is gone: what lies last below the sibling before it, or else
the parent. -/
def Tree.precedingRoute (tree : α) (route : List ℕ) : List ℕ :=
  match previousRoute route with
  | some previous => previous ++ (nodeAt tree previous).elim [] lastRoute
  | none => route.dropLast

/-- What an edit makes of a tree at a route, and the route where it leads. -/
def Edit.reference (edit : Edit α) (tree : α) (route : List ℕ) : Option (α × List ℕ) :=
  match edit, route.getLast? with
  | .replace node, _ => some (editAt (fun _ => node) route tree, route)
  | .update change, _ => some (editAt change route tree, route)
  | .insertChild node, _ =>
      some (editAt (editChildren fun nodes => node :: nodes) route tree, route)
  | .appendChild node, _ =>
      some (editAt (editChildren fun nodes => nodes ++ [node]) route tree, route)
  | .insertLeft node, some index =>
      some (editAt (editChildren fun nodes => nodes.insertIdx index node) route.dropLast tree,
        route.dropLast ++ [index + 1])
  | .insertRight node, some index =>
      some (editAt (editChildren fun nodes => nodes.insertIdx (index + 1) node) route.dropLast tree,
        route)
  | .remove, some index =>
      some (editAt (editChildren fun nodes => nodes.eraseIdx index) route.dropLast tree,
        precedingRoute tree route)
  | _, none => none

variable (tree node : α) (above : List ℕ) (index : ℕ)

theorem reference_insertLeft :
    (Edit.insertLeft node).reference tree (above ++ [index]) =
      some (editAt (editChildren (·.insertIdx index node)) above tree, above ++ [index + 1]) := by
  simp [Edit.reference]

theorem reference_insertRight :
    (Edit.insertRight node).reference tree (above ++ [index]) =
      some (editAt (editChildren (·.insertIdx (index + 1) node)) above tree,
        above ++ [index]) := by
  simp [Edit.reference]

theorem reference_remove :
    Edit.remove.reference tree (above ++ [index]) =
      some (editAt (editChildren (·.eraseIdx index)) above tree,
        precedingRoute tree (above ++ [index])) := by
  simp [Edit.reference]

end Reference

/-! ## Changes of a list at an index -/

section ListChanges

variable {α : Type*} {before : List α} {index : ℕ} (hlength : before.length = index)
variable (item : α) (after : List α)
include hlength

theorem modify_append_cons (change : α → α) :
    (before ++ item :: after).modify index change = before ++ change item :: after := by
  subst hlength
  induction before with
  | nil => rfl
  | cons first before ih => exact congrArg (first :: ·) ih

theorem insertIdx_append_cons (other : α) :
    (before ++ item :: after).insertIdx index other = before ++ other :: item :: after := by
  subst hlength
  induction before with
  | nil => rfl
  | cons first before ih => exact congrArg (first :: ·) ih

theorem insertIdx_succ_append_cons (other : α) :
    (before ++ item :: after).insertIdx (index + 1) other = before ++ item :: other :: after := by
  subst hlength
  induction before with
  | nil => rfl
  | cons first before ih => exact congrArg (first :: ·) ih

theorem eraseIdx_append_cons : (before ++ item :: after).eraseIdx index = before ++ after := by
  rw [List.eraseIdx_append_of_length_le (by omega), hlength, Nat.sub_self, List.eraseIdx_cons_zero]

end ListChanges

namespace Zipper

variable {α : Type*} [Tree α]

/-! ## Cursors without pending edits -/

/-- Every frame holds the children that its parent has. -/
def Fresh : α → List (Frame α) → Prop
  | _, [] => True
  | node, frame :: rest =>
      isBranch frame.parent ∧
        children frame.parent = frame.left.toList.reverse ++ node :: frame.right.toList ∧
        Fresh frame.parent rest

theorem fresh_cons {node parent : α} {lefts rights : List α} {rest : List (Frame α)} :
    Fresh node (⟨parent, .ofList lefts, .ofList rights⟩ :: rest) ↔
      isBranch parent ∧ children parent = lefts.reverse ++ node :: rights ∧ Fresh parent rest := by
  rw [Fresh, Siblings.toList_ofList, Siblings.toList_ofList]

variable [LawfulTree α]

/-- Without pending edits a frame is filled to the parent that it keeps. -/
theorem fill_of_fresh {node : α} {frame : Frame α} {rest : List (Frame α)}
    (hfresh : Fresh node (frame :: rest)) : frame.fill node = frame.parent := by
  obtain ⟨hbranch, hchildren, -⟩ := hfresh
  rw [Frame.fill, ← hchildren, LawfulTree.rebuild_children hbranch]

theorem fresh_of_adjacent {z w : Zipper α} (hfresh : Fresh z.focus z.path)
    (hadjacent : Adjacent z w) : Fresh w.focus w.path := by
  cases hadjacent with
  | down hdown =>
      obtain ⟨hbranch, first, others, hchildren, rfl⟩ := down_eq_some_iff.mp hdown
      exact fresh_cons.mpr ⟨hbranch, hchildren, hfresh⟩
  | up hup =>
      obtain ⟨node, frame, rest, rfl, rfl⟩ := exists_of_up hup
      rw [fill_of_fresh hfresh]
      exact hfresh.2.2
  | left hleft =>
      obtain ⟨node, parent, sibling, lefts, rights, rest, rfl, rfl⟩ := exists_of_left hleft
      obtain ⟨hbranch, hchildren, hrest⟩ := fresh_cons.mp hfresh
      refine fresh_cons.mpr ⟨hbranch, ?_, hrest⟩
      rw [hchildren, List.reverse_cons, List.append_assoc, List.singleton_append]
  | right hright =>
      obtain ⟨node, parent, sibling, lefts, rights, rest, rfl, rfl⟩ := exists_of_right hright
      obtain ⟨hbranch, hchildren, hrest⟩ := fresh_cons.mp hfresh
      refine fresh_cons.mpr ⟨hbranch, ?_, hrest⟩
      rw [hchildren, List.reverse_cons, List.append_assoc, List.singleton_append]

theorem fresh_of_reaches {z w : Zipper α} (hfresh : Fresh z.focus z.path)
    (hreaches : Reaches z w) : Fresh w.focus w.path := by
  induction hreaches with
  | refl => exact hfresh
  | tail _ hadjacent ih => exact fresh_of_adjacent ih hadjacent

theorem fresh_of_walked {tree : α} {z : Zipper α} (hwalked : Walked tree z) :
    Fresh z.focus z.path := by
  induction hwalked with
  | start => exact trivial
  | move motion _ hmove ih => exact fresh_of_reaches ih (reaches_motion hmove)

theorem root_of_walked {tree : α} {z : Zipper α} (hwalked : Walked tree z) : z.root = tree := by
  induction hwalked with
  | start => rfl
  | move motion _ hmove ih => rw [root_of_reaches (reaches_motion hmove), ih]

/-! ## Folding an edit -/

/-- Up to a reading of trees, rebuilding the folded node of a frame is rebuilding its parent. -/
def Rebuilds {β : Type*} (read : α → β) : α → List (Frame α) → Prop
  | _, [] => True
  | node, frame :: rest =>
      isBranch frame.parent ∧
        (∀ nodes others : List α, nodes.map read = others.map read →
          read (rebuild frame.parent nodes) = read (rebuild (frame.fill node) others)) ∧
        Rebuilds read (frame.fill node) rest

theorem rebuilds_of_fresh {node : α} {path : List (Frame α)} (hfresh : Fresh node path) :
    Rebuilds id node path := by
  induction path generalizing node with
  | nil => trivial
  | cons frame rest ih =>
      rw [Rebuilds, fill_of_fresh hfresh]
      refine ⟨hfresh.1, ?_, ih hfresh.2.2⟩
      intro nodes others hnodes
      rw [List.map_id, List.map_id] at hnodes
      rw [hnodes]

theorem rebuilds_of_sound [PlainTree α] {node : α} {path : List (Frame α)}
    (hsound : Sound ⟨node, path⟩) : Rebuilds PlainTree.plain node path := by
  induction path generalizing node with
  | nil => trivial
  | cons frame rest ih =>
      obtain ⟨hbranch, hrest⟩ := sound_cons.mp hsound
      refine ⟨hbranch, ?_, ih hrest⟩
      intro nodes others hnodes
      exact (PlainTree.plain_rebuild_rebuild hbranch _ hnodes.symm).symm

variable {β : Type*} {read : α → β}

/-- An edit of the focus is an edit of the tree at its route. -/
theorem read_root_eq_editAt {node edited : α} {path : List (Frame α)} (edit : α → α)
    (hrebuilds : Rebuilds read node path) (hedited : read edited = read (edit node)) :
    read (root ⟨edited, path⟩) =
      read (editAt edit (route ⟨node, path⟩) (root ⟨node, path⟩)) := by
  induction path generalizing node edited edit with
  | nil => exact hedited
  | cons frame rest ih =>
      obtain ⟨parent, left, right⟩ := frame
      obtain ⟨lefts, rfl⟩ := left.exists_eq_ofList
      obtain ⟨rights, rfl⟩ := right.exists_eq_ofList
      obtain ⟨hbranch, hframe, hrest⟩ := hrebuilds
      rw [fill_ofList] at hframe hrest
      rw [route_cons node (rebuild parent (lefts.reverse ++ node :: rights)),
        editAt_append_singleton, root_cons, root_cons, fill_ofList, fill_ofList]
      apply ih _ hrest
      rw [editChildren, LawfulTree.children_rebuild hbranch,
        modify_append_cons List.length_reverse]
      apply hframe
      rw [List.map_append, List.map_append, List.map_cons, List.map_cons, hedited]

/-- An edit among the siblings is an edit of the children of the tree at the parent's route. -/
theorem read_root_eq_editChildren {node parent : α} {lefts rights : List α}
    {rest : List (Frame α)} (change : List α → List α)
    (hrebuilds : Rebuilds read node (⟨parent, .ofList lefts, .ofList rights⟩ :: rest)) :
    read (root ⟨rebuild parent (change (lefts.reverse ++ node :: rights)), rest⟩) =
      read (editAt (editChildren change) (route ⟨node, rest⟩)
        (root ⟨node, ⟨parent, .ofList lefts, .ofList rights⟩ :: rest⟩)) := by
  obtain ⟨hbranch, hframe, hrest⟩ := hrebuilds
  rw [fill_ofList] at hframe
  apply read_root_eq_editAt _ hrest
  rw [fill_ofList, editChildren, LawfulTree.children_rebuild hbranch]
  exact hframe _ _ rfl

/-- Going down through last children lengthens the route by the way to where they end. -/
theorem route_deepestRightmost (z : Zipper α) :
    z.deepestRightmost.route = z.route ++ lastRoute z.focus := by
  fun_induction deepestRightmost z with
  | case1 z hdown =>
      rw [lastRoute_of_children_eq_nil (down_eq_none_iff.mp hdown), List.append_nil]
  | case2 z child hdown ih =>
      obtain ⟨before, last, hchildren, hrightmost⟩ := rightmost_of_down hdown
      rw [ih, hrightmost, route_cons last z.focus, List.append_assoc, List.length_reverse,
        lastRoute_of_children_eq_append before hchildren]
      rfl

/-- After a removal the cursor stands at the place before the node. -/
theorem place_of_remove {node parent : α} {lefts rights : List α} {rest : List (Frame α)}
    (hsound : Sound ⟨node, ⟨parent, .ofList lefts, .ofList rights⟩ :: rest⟩) {w : Zipper α}
    (hremove : remove ⟨node, ⟨parent, .ofList lefts, .ofList rights⟩ :: rest⟩ = .ok w) :
    w.root = root ⟨rebuild parent (lefts.reverse ++ rights), rest⟩ ∧
      w.route = precedingRoute (root ⟨node, ⟨parent, .ofList lefts, .ofList rights⟩ :: rest⟩)
        (route ⟨node, rest⟩ ++ [lefts.length]) := by
  refine ⟨root_of_remove hremove, ?_⟩
  cases lefts with
  | nil =>
      rw [remove_nil] at hremove
      cases hremove
      rw [List.length_nil, precedingRoute, previousRoute_append_zero, List.dropLast_concat]
      rfl
  | cons sibling lefts =>
      rw [remove_cons] at hremove
      cases hremove
      obtain ⟨filled, hfilled, hchildren⟩ := exists_parent hsound
      have hsibling : nodeAt
          (root ⟨node, ⟨parent, .ofList (sibling :: lefts), .ofList rights⟩ :: rest⟩)
          (route ⟨node, rest⟩ ++ [lefts.length]) = some sibling := by
        rw [nodeAt_append_singleton, hfilled, Option.bind_some, hchildren]
        simp
      rw [List.length_cons, precedingRoute, previousRoute_append_succ, route_deepestRightmost,
        route_cons sibling node]
      simp only [hsibling, Option.elim_some]

/-- An edit folded up to the root is the edit of the tree at the cursor's route. -/
theorem apply_eq_reference (edit : Edit α) {z : Zipper α} (hsound : Sound z)
    (hrebuilds : Rebuilds read z.focus z.path) :
    (edit.apply z).toOption.map (fun w => (read w.root, w.route)) =
      (edit.reference z.root z.route).map fun (tree, route) => (read tree, route) := by
  have hfocus : ∀ change : α → α,
      some (read (root ⟨change z.focus, z.path⟩), z.route) =
        some (read (editAt change z.route z.root), z.route) := by
    intro change
    rw [read_root_eq_editAt change hrebuilds rfl]
  cases edit with
  | replace node => exact hfocus fun _ => node
  | update change => exact hfocus change
  | insertChild node => exact hfocus (editChildren (node :: ·))
  | appendChild node => exact hfocus (editChildren (· ++ [node]))
  | insertLeft other =>
      cases z using placeCases with
      | root node => rfl
      | child node parent lefts rights rest =>
          have hroot := read_root_eq_editChildren (·.insertIdx lefts.length other) hrebuilds
          have hnodes : lefts.reverse ++ other :: node :: rights =
              (other :: lefts).reverse ++ node :: rights := by
            rw [List.reverse_cons, List.append_assoc, List.singleton_append]
          rw [insertIdx_append_cons List.length_reverse, hnodes, ← root_child] at hroot
          have hroute := route_cons node node parent (other :: lefts) (.ofList rights) rest
          rw [route_cons node node, reference_insertLeft]
          exact congrArg₂ (fun tree route => some (tree, route)) hroot hroute
  | insertRight other =>
      cases z using placeCases with
      | root node => rfl
      | child node parent lefts rights rest =>
          have hroot := read_root_eq_editChildren (·.insertIdx (lefts.length + 1) other) hrebuilds
          rw [insertIdx_succ_append_cons List.length_reverse, ← root_child] at hroot
          rw [route_cons node node, reference_insertRight]
          exact congrArg₂ (fun tree route => some (tree, route)) hroot (route_cons ..)
  | remove =>
      cases z using placeCases with
      | root node => rfl
      | child node parent lefts rights rest =>
          obtain ⟨w, hremove⟩ := exists_remove node parent lefts rights rest
          obtain ⟨hwroot, hwroute⟩ := place_of_remove hsound hremove
          have hroot := read_root_eq_editChildren (·.eraseIdx lefts.length) hrebuilds
          rw [eraseIdx_append_cons List.length_reverse, ← hwroot] at hroot
          rw [route_cons node node, reference_remove, Edit.apply, hremove]
          exact congrArg₂ (fun tree route => some (tree, route)) hroot hwroute

/-- Where only moves led, an edit that has a meaning at the cursor's route is not refused. -/
theorem exists_of_reference {edit : Edit α} {tree edited : α} {place : List ℕ} {z : Zipper α}
    (hwalked : Walked tree z) (hreference : edit.reference tree z.route = some (edited, place)) :
    ∃ w, edit.apply z = .ok w ∧ w.root = edited := by
  have happly := apply_eq_reference edit (sound_of_reachable hwalked.reachable)
    (rebuilds_of_fresh (fresh_of_walked hwalked))
  rw [root_of_walked hwalked, hreference] at happly
  cases hresult : edit.apply z with
  | error reason =>
      rw [hresult] at happly
      cases happly
  | ok w =>
      rw [hresult] at happly
      exact ⟨w, rfl, congrArg Prod.fst (Option.some.inj happly)⟩

/-- Where only moves led, an edit makes of the tree what it makes of it at the cursor's route.
Where other edits are pending it does so up to the shapes that branches fall back to. -/
theorem edit_refines_reference [PlainTree α] (edit : Edit α) (tree : α) (z : Zipper α) :
    (Walked tree z →
      (edit.apply z).toOption.map (fun w => (w.root, w.route)) =
        edit.reference tree z.route) ∧
    (Reachable tree z →
      (edit.apply z).toOption.map (fun w => (PlainTree.plain w.root, w.route)) =
        (edit.reference z.root z.route).map fun (edited, route) =>
          (PlainTree.plain edited, route)) := by
  constructor
  · intro hwalked
    have happly := apply_eq_reference edit (sound_of_reachable hwalked.reachable)
      (rebuilds_of_fresh (fresh_of_walked hwalked))
    rw [root_of_walked hwalked] at happly
    exact happly.trans Option.map_id_apply
  · intro hreachable
    have hsound := sound_of_reachable hreachable
    exact apply_eq_reference edit hsound (rebuilds_of_sound hsound)

/-- In a pair the first of two children gives way to one that makes it a block.  Out of what
became a block and an array the extra child goes again, and the cursor still knows the pair and the
object that they were. -/
theorem edit_refines_reference_beside_insertions :
    (Walked (Term.pair (.int 1) (.int 2))
        ⟨.int 1, [⟨.pair (.int 1) (.int 2), .ofList [], .ofList [.int 2]⟩]⟩ ∧
      ((Edit.insertRight (.int 3)).apply
          (⟨.int 1, [⟨.pair (.int 1) (.int 2), .ofList [], .ofList [.int 2]⟩]⟩ :
            Zipper Term)).toOption.map (fun w => (w.root, w.route)) =
        some (.block [.int 1, .int 3, .int 2], [0])) ∧
    (Reachable (Term.pair (.int 1) (.int 2))
        ⟨.int 1, [⟨.pair (.int 1) (.int 2), .ofList [], .ofList [.int 3, .int 2]⟩]⟩ ∧
      (Edit.remove.apply
          (⟨.int 1, [⟨.pair (.int 1) (.int 2), .ofList [], .ofList [.int 3, .int 2]⟩]⟩ :
            Zipper Term)).toOption.map (fun w => (PlainTree.plain w.root, w.route)) =
        some (.block [.int 3, .int 2], [])) ∧
    (Reachable (Document.object ⟨[("a", .null)], by decide⟩)
        ⟨.string "c", [⟨.object ⟨[("a", .null)], by decide⟩,
          .ofList [], .ofList [.entry "a" .null]⟩]⟩ ∧
      (Edit.remove.apply
          (⟨.string "c", [⟨.object ⟨[("a", .null)], by decide⟩,
            .ofList [], .ofList [.entry "a" .null]⟩]⟩ :
            Zipper Document)).toOption.map (fun w => (PlainTree.plain w.root, w.route)) =
        some (.array [.entry "a" .null], [])) := by
  have hwalked : Walked (Term.pair (.int 1) (.int 2))
      ⟨.int 1, [⟨.pair (.int 1) (.int 2), .ofList [], .ofList [.int 2]⟩]⟩ :=
    .move (.move .down) .start rfl
  have hterm : Reachable (Term.pair (.int 1) (.int 2))
      ⟨.int 1, [⟨.pair (.int 1) (.int 2), .ofList [], .ofList [.int 3, .int 2]⟩]⟩ :=
    .edit (.insertRight (.int 3)) hwalked.reachable rfl
  have hdocument : Reachable (Document.object ⟨[("a", .null)], by decide⟩)
      ⟨.string "c", [⟨.object ⟨[("a", .null)], by decide⟩,
        .ofList [], .ofList [.entry "a" .null]⟩]⟩ :=
    .move (.move .left) (.edit (.insertLeft (.string "c")) (.move (.move .down) .start rfl) rfl) rfl
  refine ⟨⟨hwalked, ?_⟩, ⟨hterm, ?_⟩, hdocument, ?_⟩
  · exact ((edit_refines_reference (.insertRight (.int 3)) _ _).1 hwalked).trans rfl
  · exact ((edit_refines_reference .remove _ _).2 hterm).trans rfl
  · exact ((edit_refines_reference .remove _ _).2 hdocument).trans rfl

end Zipper

end TreeCursor
