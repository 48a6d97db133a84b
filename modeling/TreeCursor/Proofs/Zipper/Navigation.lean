import TreeCursor.Proofs.Json.Lawful
import TreeCursor.Proofs.Term.Lawful
import TreeCursor.Proofs.Tree.Route
import TreeCursor.Proofs.Zipper.Reachable

/-!
# Navigation in the materialised tree

The tree that a cursor stands in is the one it would fold to.  A reachable cursor shows the node
at its route in that tree between the siblings that the tree has there, and a move leads to the
place that its name says, or nowhere if the tree has no such place.  Pending edits make no
difference, since every frame holds the children that its parent will have.
-/

namespace TreeCursor

/-! ## Neighbouring routes -/

namespace Tree

/-- The route of the parent. -/
def parentRoute (route : List ℕ) : Option (List ℕ) :=
  route.getLast?.map fun _ => route.dropLast

/-- The route whose last index is one less. -/
def previousRoute (route : List ℕ) : Option (List ℕ) :=
  match route.getLast? with
  | some (index + 1) => some (route.dropLast ++ [index])
  | _ => none

/-- The route whose last index is one more. -/
def followingRoute (route : List ℕ) : Option (List ℕ) :=
  route.getLast?.map fun index => route.dropLast ++ [index + 1]

/-- The route of the first sibling; the root is its own. -/
def firstRoute (route : List ℕ) : List ℕ :=
  match route.getLast? with
  | some _ => route.dropLast ++ [0]
  | none => []

variable {α : Type*} [Tree α]

/-- The route of the last sibling in a tree; the root is its own. -/
def finalRoute (tree : α) (route : List ℕ) : List ℕ :=
  match route.getLast? with
  | some _ =>
      let siblings := (nodeAt tree route.dropLast).elim [] children
      route.dropLast ++ [siblings.length - 1]
  | none => []

section Append

variable (above : List ℕ) (index : ℕ)

theorem parentRoute_append : parentRoute (above ++ [index]) = some above := by
  simp [parentRoute]

theorem previousRoute_append_zero : previousRoute (above ++ [0]) = none := by
  simp [previousRoute]

theorem previousRoute_append_succ :
    previousRoute (above ++ [index + 1]) = some (above ++ [index]) := by
  simp [previousRoute]

theorem followingRoute_append :
    followingRoute (above ++ [index]) = some (above ++ [index + 1]) := by
  simp [followingRoute]

theorem firstRoute_append : firstRoute (above ++ [index]) = above ++ [0] := by
  simp [firstRoute]

theorem finalRoute_append {tree parent : α} (hparent : nodeAt tree above = some parent) :
    finalRoute tree (above ++ [index]) = above ++ [(children parent).length - 1] := by
  simp [finalRoute, hparent]

end Append

end Tree

namespace Zipper

open TreeCursor.Tree

variable {α : Type*} [Tree α]

/-- A result of a move that leads to the target route, or nowhere if the tree has no place
there. -/
structure LeadsTo (tree : α) (target : Option (List ℕ)) (result : Option (Zipper α)) : Prop where
  eq_none_iff : result = none ↔ target.bind (nodeAt tree) = none
  place : ∀ w, result = some w →
    w.root = tree ∧ target = some w.route ∧ nodeAt tree w.route = some w.focus

/-- A cursor that stands in its tree as a walk from the root would. -/
structure Located (z : Zipper α) : Prop where
  focus : nodeAt z.root z.route = some z.focus
  /-- A node below the root has the siblings that it has in the tree. -/
  siblings : ∀ above index, z.route = above ++ [index] → ∃ parent,
    nodeAt z.root above = some parent ∧
      children parent = z.lefts ++ z.focus :: z.rights ∧ z.lefts.length = index
  /-- The root has none. -/
  siblings_root : z.route = [] → z.lefts = [] ∧ z.rights = []
  depth : z.depth = z.route.length
  index : z.index = z.route.getLast?.getD 0
  isRoot : z.isRoot ↔ z.route = []
  hasLeft : z.hasLeft ↔ (previousRoute z.route).bind (nodeAt z.root) ≠ none
  hasRight : z.hasRight ↔ (followingRoute z.route).bind (nodeAt z.root) ≠ none
  down : LeadsTo z.root (some (z.route ++ [0])) z.down
  up : LeadsTo z.root (parentRoute z.route) z.up
  left : LeadsTo z.root (previousRoute z.route) z.left
  right : LeadsTo z.root (followingRoute z.route) z.right
  leftmost : LeadsTo z.root (some (firstRoute z.route)) (some z.leftmost)
  rightmost : LeadsTo z.root (some (finalRoute z.root z.route)) (some z.rightmost)
  top : LeadsTo z.root (some []) (some z.top)
  leftmost_root : z.route = [] → z.leftmost = z
  rightmost_root : z.route = [] → z.rightmost = z

variable [LawfulTree α]

/-- What lies below the cursor lies below its route in the tree. -/
theorem nodeAt_route_append {z : Zipper α} (hsound : Sound z) (below : List ℕ) :
    nodeAt z.root (z.route ++ below) = nodeAt z.focus below := by
  obtain ⟨node, path⟩ := z
  induction path generalizing node below with
  | nil => rfl
  | cons frame rest ih =>
      obtain ⟨parent, left, right⟩ := frame
      obtain ⟨lefts, rfl⟩ := left.exists_eq_ofList
      obtain ⟨rights, rfl⟩ := right.exists_eq_ofList
      obtain ⟨hbranch, hrest⟩ := sound_cons.mp hsound
      let filled := rebuild parent (lefts.reverse ++ node :: rights)
      have hchild : (children filled)[lefts.length]? = some node := by
        rw [LawfulTree.children_rebuild hbranch]
        simp
      have hbelow : nodeAt (root ⟨filled, rest⟩) (route ⟨filled, rest⟩ ++ lefts.length :: below) =
          nodeAt filled (lefts.length :: below) := ih _ _ hrest
      rw [root_cons, fill_ofList, route_cons node filled, List.append_assoc,
        List.singleton_append, hbelow, nodeAt_cons, hchild, Option.bind_some]

theorem nodeAt_route {z : Zipper α} (hsound : Sound z) :
    nodeAt z.root z.route = some z.focus := by
  have hbelow := nodeAt_route_append hsound []
  rwa [List.append_nil] at hbelow

theorem nodeAt_route_of_reaches {z w : Zipper α} (hsound : Sound z) (hreaches : Reaches z w) :
    nodeAt z.root w.route = some w.focus := by
  rw [← root_of_reaches hreaches, nodeAt_route (sound_of_reaches hsound hreaches)]

theorem isSome_nodeAt_of_reaches {z w : Zipper α} (hsound : Sound z) (hreaches : Reaches z w) :
    (nodeAt z.root w.route).isSome := by
  rw [nodeAt_route_of_reaches hsound hreaches]
  rfl

/-- The parent in the tree has the siblings of the cursor as its other children. -/
theorem exists_parent {node parent : α} {lefts rights : List α} {rest : List (Frame α)}
    (hsound : Sound ⟨node, ⟨parent, .ofList lefts, .ofList rights⟩ :: rest⟩) :
    ∃ filled, nodeAt (root ⟨node, ⟨parent, .ofList lefts, .ofList rights⟩ :: rest⟩)
        (route ⟨node, rest⟩) = some filled ∧
      children filled = lefts.reverse ++ node :: rights := by
  obtain ⟨hbranch, hrest⟩ := sound_cons.mp hsound
  refine ⟨Tree.rebuild parent (lefts.reverse ++ node :: rights), ?_, ?_⟩
  · rw [root_cons, fill_ofList]
    exact nodeAt_route (z := ⟨_, rest⟩) hrest
  · exact LawfulTree.children_rebuild hbranch _

theorem leadsTo_some {tree : α} {target : List ℕ} {w : Zipper α} (hsound : Sound w)
    (hroot : w.root = tree) (hroute : w.route = target) :
    LeadsTo tree (some target) (some w) := by
  have hfocus := nodeAt_route hsound
  rw [hroot, hroute] at hfocus
  constructor
  · simp [hfocus]
  · rintro w' hw
    cases hw
    exact ⟨hroot, by rw [hroute], by rw [hroute, hfocus]⟩

omit [LawfulTree α] in
theorem leadsTo_none {tree : α} {target : Option (List ℕ)}
    (htarget : target.bind (nodeAt tree) = none) :
    LeadsTo tree target (none : Option (Zipper α)) := by
  constructor
  · simp [htarget]
  · rintro w hw
    cases hw

/-- A walk of steps leads to the route where it ends. -/
theorem leadsTo_of_reaches {z w : Zipper α} {target : List ℕ} (hsound : Sound z)
    (hreaches : Reaches z w) (hroute : w.route = target) :
    LeadsTo z.root (some target) (some w) :=
  leadsTo_some (sound_of_reaches hsound hreaches) (root_of_reaches hreaches) hroute

theorem leadsTo_down {z : Zipper α} (hsound : Sound z) :
    LeadsTo z.root (some (z.route ++ [0])) z.down := by
  cases hdown : z.down with
  | some w =>
      apply leadsTo_of_reaches hsound (.single (.down hdown))
      obtain ⟨-, first, others, -, rfl⟩ := down_eq_some_iff.mp hdown
      exact route_cons ..
  | none =>
      apply leadsTo_none
      rw [Option.bind_some, nodeAt_route_append hsound, nodeAt_cons,
        down_eq_none_iff.mp hdown]
      rfl

theorem leadsTo_up {z : Zipper α} (hsound : Sound z) :
    LeadsTo z.root (parentRoute z.route) z.up := by
  cases z using placeCases with
  | root node => exact leadsTo_none rfl
  | child node parent lefts rights rest =>
      rw [route_cons node node, parentRoute_append]
      exact leadsTo_of_reaches hsound (.single (.up rfl)) rfl

theorem leadsTo_left {z : Zipper α} (hsound : Sound z) :
    LeadsTo z.root (previousRoute z.route) z.left := by
  cases z using placeCases with
  | root node => exact leadsTo_none rfl
  | child node parent lefts rights rest =>
      rw [route_cons node node]
      cases lefts with
      | nil =>
          rw [left_nil, List.length_nil, previousRoute_append_zero]
          exact leadsTo_none rfl
      | cons sibling lefts =>
          rw [List.length_cons, previousRoute_append_succ, left_cons]
          apply leadsTo_of_reaches hsound (.single (.left rfl))
          exact route_cons ..

theorem leadsTo_right {z : Zipper α} (hsound : Sound z) :
    LeadsTo z.root (followingRoute z.route) z.right := by
  cases z using placeCases with
  | root node => exact leadsTo_none rfl
  | child node parent lefts rights rest =>
      obtain ⟨filled, hfilled, hchildren⟩ := exists_parent hsound
      rw [route_cons node node, followingRoute_append]
      cases rights with
      | nil =>
          rw [right_nil]
          apply leadsTo_none
          rw [Option.bind_some, nodeAt_append_singleton, hfilled, Option.bind_some, hchildren]
          simp
      | cons sibling rights =>
          have hright := right_cons node parent sibling lefts rights rest
          rw [hright]
          apply leadsTo_of_reaches hsound (.single (.right hright))
          exact route_cons ..

theorem leadsTo_leftmost {z : Zipper α} (hsound : Sound z) :
    LeadsTo z.root (some (firstRoute z.route)) (some z.leftmost) := by
  apply leadsTo_of_reaches hsound (reaches_leftmost z)
  cases z using placeCases with
  | root node => rfl
  | child node parent lefts rights rest =>
      rw [route_cons node node, firstRoute_append]
      obtain rfl | ⟨before, first, rfl⟩ := lefts.eq_nil_or_concat'
      · rw [leftmost_nil]
        exact route_cons ..
      · rw [leftmost_append]
        exact route_cons ..

theorem leadsTo_rightmost {z : Zipper α} (hsound : Sound z) :
    LeadsTo z.root (some (finalRoute z.root z.route)) (some z.rightmost) := by
  apply leadsTo_of_reaches hsound (reaches_rightmost z)
  cases z using placeCases with
  | root node => rfl
  | child node parent lefts rights rest =>
      obtain ⟨filled, hfilled, hchildren⟩ := exists_parent hsound
      rw [route_cons node node, finalRoute_append _ _ hfilled, hchildren]
      obtain rfl | ⟨before, last, rfl⟩ := rights.eq_nil_or_concat'
      · rw [rightmost_nil, route_cons node node]
        simp
      · rw [rightmost_append, route_cons last node]
        simp
        omega

theorem siblings_of_sound {z : Zipper α} (hsound : Sound z) {above : List ℕ} {index : ℕ}
    (hroute : z.route = above ++ [index]) :
    ∃ parent, nodeAt z.root above = some parent ∧
      children parent = z.lefts ++ z.focus :: z.rights ∧ z.lefts.length = index := by
  cases z using placeCases with
  | root node => simp [route] at hroute
  | child node parent lefts rights rest =>
      rw [route_cons node node] at hroute
      obtain ⟨rfl, hindex⟩ := List.append_inj' hroute rfl
      obtain ⟨filled, hfilled, hchildren⟩ := exists_parent hsound
      rw [List.cons.injEq] at hindex
      rw [lefts_child, rights_child, List.length_reverse]
      exact ⟨filled, hfilled, hchildren, hindex.1⟩

/-- Whatever the history of a cursor, it stands in the tree that it would fold to as a walk from
the root of that tree would, and moves as such a walk goes on. -/
theorem located_of_reachable {tree : α} {z : Zipper α} (hreachable : Reachable tree z) :
    Located z := by
  have hsound := sound_of_reachable hreachable
  constructor
  case focus => exact nodeAt_route hsound
  case siblings =>
    intro above index hroute
    exact siblings_of_sound hsound hroute
  case siblings_root =>
    intro hroute
    simp [lefts, rights, route_eq_nil_iff.mp hroute]
  case depth => simp [depth, route]
  case index =>
    cases z using placeCases with
    | root node => rfl
    | child node parent lefts rights rest => simp [route, index]
  case isRoot => rw [route_eq_nil_iff, isRoot, List.isEmpty_iff]
  case hasLeft =>
    rw [hasLeft_iff_left_ne_none]
    exact not_congr (leadsTo_left hsound).eq_none_iff
  case hasRight =>
    rw [hasRight_iff_right_ne_none]
    exact not_congr (leadsTo_right hsound).eq_none_iff
  case down => exact leadsTo_down hsound
  case up => exact leadsTo_up hsound
  case left => exact leadsTo_left hsound
  case right => exact leadsTo_right hsound
  case leftmost => exact leadsTo_leftmost hsound
  case rightmost => exact leadsTo_rightmost hsound
  case top => exact leadsTo_of_reaches hsound (reaches_top z) rfl
  case leftmost_root =>
    intro hroute
    simp [leftmost, route_eq_nil_iff.mp hroute]
  case rightmost_root =>
    intro hroute
    simp [rightmost, route_eq_nil_iff.mp hroute]

/-- A pair that will be a block and an object that will be an array, both not yet told so. -/
theorem located_beside_insertions :
    (Reachable (Term.pair (.int 1) (.int 2))
        ⟨.int 2, [⟨.pair (.int 1) (.int 2), .ofList [.int 7, .int 1], .ofList []⟩]⟩ ∧
      Located (⟨.int 2, [⟨.pair (.int 1) (.int 2), .ofList [.int 7, .int 1], .ofList []⟩]⟩ :
        Zipper Term)) ∧
    (Reachable (Document.object ⟨[("a", .null), ("b", .bool true)], by decide⟩)
        ⟨.string "a", [⟨.entry "a" .null, .ofList [], .ofList [.null]⟩,
          ⟨.object ⟨[("a", .null), ("b", .bool true)], by decide⟩,
            .ofList [], .ofList [.string "c", .entry "b" (.bool true)]⟩]⟩ ∧
      Located (⟨.string "a", [⟨.entry "a" .null, .ofList [], .ofList [.null]⟩,
          ⟨.object ⟨[("a", .null), ("b", .bool true)], by decide⟩,
            .ofList [], .ofList [.string "c", .entry "b" (.bool true)]⟩]⟩ :
        Zipper Document)) := by
  have hterm : Reachable (Term.pair (.int 1) (.int 2))
      ⟨.int 2, [⟨.pair (.int 1) (.int 2), .ofList [.int 7, .int 1], .ofList []⟩]⟩ :=
    .edit (.insertLeft (.int 7))
      (.move (.move .right) (.move (.move .down) .start rfl) rfl) rfl
  have hdocument : Reachable (Document.object ⟨[("a", .null), ("b", .bool true)], by decide⟩)
      ⟨.string "a", [⟨.entry "a" .null, .ofList [], .ofList [.null]⟩,
        ⟨.object ⟨[("a", .null), ("b", .bool true)], by decide⟩,
          .ofList [], .ofList [.string "c", .entry "b" (.bool true)]⟩]⟩ :=
    .move (.move .down)
      (.edit (.insertRight (.string "c")) (.move (.move .down) .start rfl) rfl) rfl
  exact ⟨⟨hterm, located_of_reachable hterm⟩, hdocument, located_of_reachable hdocument⟩

end Zipper

end TreeCursor
