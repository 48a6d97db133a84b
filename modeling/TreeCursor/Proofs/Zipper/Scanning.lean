import TreeCursor.Proofs.Tree.Preorder
import TreeCursor.Proofs.Zipper.Navigation

/-!
# Scans in pre-order

A step forward leads from a place to the first place after it in pre-order, and there is none only
after the last one.  So a scan meets the places from the cursor to the end of the tree, once each and
in order.  What a scan has still before it is what stands to the right of the path, which is also
what lies on the stack when the nodes of the tree are listed with one.
-/

namespace TreeCursor.Zipper

open TreeCursor.Tree

variable {α : Type*} [Tree α]

theorem positions_of_next_eq_none {z : Zipper α} (hnext : z.next = none) : z.positions = [z] := by
  rw [positions, scan]
  split
  · rfl
  · next w hstep => cases hnext.symm.trans hstep

theorem positions_of_next_eq_some {z w : Zipper α} (hnext : z.next = some w) :
    z.positions = z :: w.positions := by
  rw [positions, scan]
  split
  · next hstep => cases hnext.symm.trans hstep
  · next w' hstep =>
      cases Option.some.inj (hnext.symm.trans hstep)
      rfl

/-- What holds of a cursor as soon as it holds of the next one holds of all cursors. -/
theorem next_induction {motive : Zipper α → Prop}
    (hstep : ∀ z, (∀ w, z.next = some w → motive w) → motive z) (z : Zipper α) : motive z := by
  induction hahead : z.ahead using Nat.strongRecOn generalizing z with
  | _ places ih =>
      apply hstep
      intro w hnext
      exact ih w.ahead (hahead ▸ ahead_next hnext) w rfl

theorem reaches_of_mem_positions {z w : Zipper α} (hmem : w ∈ z.positions) : Reaches z w := by
  induction z using next_induction with
  | hstep z ih =>
      cases hnext : z.next with
      | none =>
          rw [positions_of_next_eq_none hnext, List.mem_singleton] at hmem
          rw [hmem]
      | some v =>
          rw [positions_of_next_eq_some hnext, List.mem_cons] at hmem
          obtain rfl | hmem := hmem
          · exact .refl
          · exact (reaches_next hnext).trans (ih v hnext hmem)

/-! ## The step to the next place -/

section Routes

variable [LawfulTree α]

/-- What is beyond the last child of a node is beyond the node. -/
theorem beyond_of_beyond_last {node parent : α} {lefts : List α} {rest : List (Frame α)}
    (hsound : Sound ⟨node, ⟨parent, .ofList lefts, .ofList []⟩ :: rest⟩) {place : List ℕ}
    (hplace : (nodeAt (root ⟨node, ⟨parent, .ofList lefts, .ofList []⟩ :: rest⟩) place).isSome)
    (hbeyond : Beyond (route ⟨node, rest⟩ ++ [lefts.length]) place) :
    Beyond (route ⟨node, rest⟩) place := by
  obtain ⟨filled, hfilled, hchildren⟩ := exists_parent hsound
  obtain hbeyond | ⟨index, below, hindex, rfl⟩ := beyond_append_singleton_iff.mp hbeyond
  · exact hbeyond
  · have hnone : (children filled)[index]? = none := by
      rw [hchildren, List.getElem?_eq_none_iff, List.length_append, List.length_reverse,
        List.length_singleton]
      exact hindex
    rw [nodeAt_append, hfilled, Option.bind_some, nodeAt_cons, hnone] at hplace
    cases hplace

/-- A skip leads to the first of the places beyond the cursor. -/
theorem exists_skip_iff_beyond {z : Zipper α} (hsound : Sound z) {place : List ℕ}
    (hplace : (nodeAt z.root place).isSome) :
    (∃ w, z.skip .next = some w ∧ (place = w.route ∨ w.route < place)) ↔
      Beyond z.route place := by
  obtain ⟨node, path⟩ := z
  induction path generalizing node with
  | nil => simp [skip, skipFrom, route]
  | cons frame rest ih =>
      obtain ⟨parent, left, right⟩ := frame
      obtain ⟨lefts, rfl⟩ := left.exists_eq_ofList
      obtain ⟨rights, rfl⟩ := right.exists_eq_ofList
      rw [route_cons node node]
      cases rights with
      | cons sibling rights =>
          have hskip : skip .next
              ⟨node, ⟨parent, .ofList lefts, .ofList (sibling :: rights)⟩ :: rest⟩ =
                some ⟨sibling, ⟨parent, .ofList (node :: lefts), .ofList rights⟩ :: rest⟩ := rfl
          have hroute : route ⟨sibling, ⟨parent, .ofList (node :: lefts), .ofList rights⟩ :: rest⟩ =
              route ⟨node, rest⟩ ++ [lefts.length + 1] := route_cons ..
          rw [hskip, ← at_or_after_append_succ_iff, ← hroute]
          simp
      | nil =>
          have hrest : Sound ⟨rebuild parent (lefts.reverse ++ [node]), rest⟩ :=
            (sound_cons.mp hsound).2
          have hfilled := hplace
          rw [root_child] at hfilled
          rw [skip_next_last, ih _ hrest hfilled]
          constructor
          · intro hbeyond
            exact hbeyond.append [lefts.length]
          · exact beyond_of_beyond_last hsound hplace

/-- A step leads to the first of the places after the cursor. -/
theorem exists_next_iff_lt {z : Zipper α} (hsound : Sound z) {place : List ℕ}
    (hplace : (nodeAt z.root place).isSome) :
    (∃ w, z.next = some w ∧ (place = w.route ∨ w.route < place)) ↔ z.route < place := by
  cases hdown : z.down with
  | some child =>
      have hroute : child.route = z.route ++ [0] := by
        obtain ⟨-, first, others, -, rfl⟩ := down_eq_some_iff.mp hdown
        exact route_cons ..
      rw [next, hdown, ← at_or_after_append_zero_iff, ← hroute]
      simp
  | none =>
      have hskip : z.next = z.skip .next := by
        rw [next, hdown]
      rw [hskip, exists_skip_iff_beyond hsound hplace, lt_iff_below_or_beyond]
      refine (or_iff_right ?_).symm
      rintro ⟨index, below, rfl⟩
      rw [nodeAt_route_append hsound, nodeAt_cons, down_eq_none_iff.mp hdown] at hplace
      cases hplace

theorem route_lt_of_next {z w : Zipper α} (hsound : Sound z) (hnext : z.next = some w) :
    z.route < w.route :=
  (exists_next_iff_lt hsound (isSome_nodeAt_of_reaches hsound (reaches_next hnext))).mp
    ⟨w, hnext, .inl rfl⟩

/-- A scan meets the places at or after the cursor and no others. -/
theorem mem_map_route_positions {z : Zipper α} (hsound : Sound z) {place : List ℕ} :
    place ∈ z.positions.map route ↔
      (nodeAt z.root place).isSome ∧ (place = z.route ∨ z.route < place) := by
  induction z using next_induction with
  | hstep z ih =>
      have hself : place = z.route → (nodeAt z.root place).isSome := by
        rintro rfl
        exact isSome_nodeAt_of_reaches hsound .refl
      cases hnext : z.next with
      | none =>
          rw [positions_of_next_eq_none hnext, List.map_singleton, List.mem_singleton]
          constructor
          · intro heq
            exact ⟨hself heq, Or.inl heq⟩
          · rintro ⟨hplace, heq | hless⟩
            · exact heq
            · obtain ⟨w, hw, -⟩ := (exists_next_iff_lt hsound hplace).mpr hless
              cases hnext.symm.trans hw
      | some w =>
          have hreaches : Reaches z w := reaches_next hnext
          rw [positions_of_next_eq_some hnext, List.map_cons, List.mem_cons,
            ih w hnext (sound_of_reaches hsound hreaches), root_of_reaches hreaches]
          constructor
          · rintro (heq | ⟨hplace, hafter⟩)
            · exact ⟨hself heq, Or.inl heq⟩
            · exact ⟨hplace, Or.inr ((exists_next_iff_lt hsound hplace).mp ⟨w, hnext, hafter⟩)⟩
          · rintro ⟨hplace, heq | hless⟩
            · exact Or.inl heq
            · obtain ⟨w', hw', hafter⟩ := (exists_next_iff_lt hsound hplace).mpr hless
              cases Option.some.inj (hnext.symm.trans hw')
              exact Or.inr ⟨hplace, hafter⟩

theorem pairwise_route_positions {z : Zipper α} (hsound : Sound z) :
    (z.positions.map route).Pairwise (· < ·) := by
  induction z using next_induction with
  | hstep z ih =>
      cases hnext : z.next with
      | none =>
          rw [positions_of_next_eq_none hnext]
          exact List.pairwise_singleton _ _
      | some w =>
          have hreaches : Reaches z w := reaches_next hnext
          have hsound' : Sound w := sound_of_reaches hsound hreaches
          rw [positions_of_next_eq_some hnext, List.map_cons, List.pairwise_cons]
          refine ⟨?_, ih w hnext hsound'⟩
          intro place hmem
          obtain ⟨hplace, hafter⟩ := (mem_map_route_positions hsound').mp hmem
          rw [root_of_reaches hreaches] at hplace
          exact (exists_next_iff_lt hsound hplace).mp ⟨w, hnext, hafter⟩

theorem place_of_mem_positions {z w : Zipper α} (hsound : Sound z) (hmem : w ∈ z.positions) :
    w.root = z.root ∧ nodeAt z.root w.route = some w.focus := by
  have hreaches : Reaches z w := reaches_of_mem_positions hmem
  exact ⟨root_of_reaches hreaches, nodeAt_route_of_reaches hsound hreaches⟩

end Routes

/-! ## The nodes of a scan -/

/-- The trees to the right of a path, the nearest first. -/
def pending (path : List (Frame α)) : List α :=
  path.flatMap fun frame => frame.right.toList

/-- The trees to the right of a path with their depths, the nearest first. -/
def pendingAt : List (Frame α) → List (ℕ × α)
  | [] => []
  | frame :: rest => frame.right.toList.map (rest.length + 1, ·) ++ pendingAt rest

omit [Tree α] in
theorem map_snd_pendingAt (path : List (Frame α)) : (pendingAt path).map Prod.snd = pending path := by
  induction path with
  | nil => rfl
  | cons frame rest ih =>
      rw [pendingAt, List.map_append, List.map_map, ih]
      exact congrArg (· ++ pending rest) (List.map_id frame.right.toList)

/-- A skip takes the first of the trees to the right. -/
theorem pendingAt_eq_of_skipFrom (node : α) (path : List (Frame α)) :
    pendingAt path =
      (skipFrom .next node path).elim [] fun w => (w.depth, w.focus) :: pendingAt w.path := by
  induction path generalizing node with
  | nil => rfl
  | cons frame rest ih =>
      obtain ⟨parent, left, right⟩ := frame
      obtain ⟨lefts, rfl⟩ := left.exists_eq_ofList
      obtain ⟨rights, rfl⟩ := right.exists_eq_ofList
      cases rights with
      | nil => exact ih ((Frame.mk parent (.ofList lefts) (.ofList [])).fill node)
      | cons sibling rights => rfl

/-- A step takes the first of the trees below the cursor and to the right. -/
theorem children_append_pendingAt [LawfulTree α] (z : Zipper α) :
    (children z.focus).map (z.depth + 1, ·) ++ pendingAt z.path =
      z.next.elim [] fun w => (w.depth, w.focus) :: pendingAt w.path := by
  rw [next]
  cases hdown : z.down with
  | some child =>
      obtain ⟨-, first, others, hchildren, rfl⟩ := down_eq_some_iff.mp hdown
      change _ = (_, first) :: pendingAt (⟨z.focus, .ofList [], .ofList others⟩ :: z.path)
      rw [hchildren, pendingAt, Siblings.toList_ofList]
      rfl
  | none =>
      rw [down_eq_none_iff.mp hdown]
      exact pendingAt_eq_of_skipFrom z.focus z.path

theorem pending_eq_of_skipFrom (node : α) (path : List (Frame α)) :
    pending path =
      (skipFrom .next node path).elim [] fun w => w.focus :: pending w.path := by
  rw [← map_snd_pendingAt, pendingAt_eq_of_skipFrom node]
  cases skipFrom .next node path with
  | none => rfl
  | some w => exact congrArg (w.focus :: ·) (map_snd_pendingAt w.path)

/-- A scan meets the nodes of the subtree in focus and those of the subtrees to the right, each at
its depth. -/
theorem map_place_positions [LawfulTree α] (z : Zipper α) :
    (z.positions.map fun w => (w.depth, w.focus)) =
      ((z.depth, z.focus) :: pendingAt z.path).flatMap fun place => outline place.1 place.2 := by
  induction z using next_induction with
  | hstep z ih =>
      have hbelow : (children z.focus).flatMap (outline (z.depth + 1)) =
          ((children z.focus).map (z.depth + 1, ·)).flatMap
            fun place => outline place.1 place.2 := by
        rw [List.flatMap_map]
      rw [List.flatMap_cons, outline_eq, List.cons_append, hbelow, ← List.flatMap_append,
        children_append_pendingAt]
      cases hnext : z.next with
      | none =>
          rw [positions_of_next_eq_none hnext]
          rfl
      | some w =>
          rw [positions_of_next_eq_some hnext, List.map_cons, ih w hnext]
          rfl

theorem map_place_positions_ofTree [LawfulTree α] (tree : α) :
    ((ofTree tree).positions.map fun w => (w.depth, w.focus)) = outline 0 tree :=
  (map_place_positions (ofTree tree)).trans (List.append_nil _)

/-- A scan is the listing of a stack of trees, with the one in focus on top. -/
theorem nodes_eq_preorderStack [LawfulTree α] (z : Zipper α) :
    z.nodes = preorderStack (z.focus :: pending z.path) := by
  have hnodes : z.nodes = (z.positions.map fun w => (w.depth, w.focus)).map Prod.snd := by
    rw [List.map_map]
    rfl
  have hstack : z.focus :: pending z.path =
      ((z.depth, z.focus) :: pendingAt z.path).map Prod.snd := by
    rw [List.map_cons, map_snd_pendingAt]
  rw [hnodes, map_place_positions, List.map_flatMap, hstack, preorderStack_eq_flatMap,
    List.flatMap_map]
  simp only [map_snd_outline]

theorem nodes_ofTree [LawfulTree α] (tree : α) : (ofTree tree).nodes = preorder tree :=
  nodes_eq_preorderStack (ofTree tree)

/-- Whatever the history of a cursor, a scan meets the places of its tree that come at or after its
own in pre-order, once each and in that order, and finds at each of them the node that the tree has
there.  From the root it lists the nodes of the tree as the stack does and as the recursion does that
lists a node before its children, and there are as many as the tree has nodes. -/
theorem positions_enumerate_preorder [LawfulTree α] {tree : α} {z : Zipper α}
    (hreachable : Reachable tree z) :
    (z.positions.map route).Pairwise (· < ·) ∧
    (∀ place, place ∈ z.positions.map route ↔
      (nodeAt z.root place).isSome ∧ (place = z.route ∨ z.route < place)) ∧
    (∀ w ∈ z.positions, w.root = z.root ∧ nodeAt z.root w.route = some w.focus) ∧
    (∀ whole : α,
      (ofTree whole).nodes = preorder whole ∧
      preorder whole = whole :: (children whole).flatMap preorder ∧
      (preorder whole).length = nodeCount whole) := by
  have hsound : Sound z := sound_of_reachable hreachable
  refine ⟨pairwise_route_positions hsound, ?_, ?_, ?_⟩
  · intro place
    exact mem_map_route_positions hsound
  · intro w hmem
    exact place_of_mem_positions hsound hmem
  · intro whole
    exact ⟨nodes_ofTree whole, preorder_eq whole, length_preorder whole⟩

/-- A pair that will be a block has three children, of which the second one has a child of its own.
An object that will be an array has a second entry of the same key.  The scans from the first
children meet what was inserted, but not the root. -/
theorem positions_enumerate_preorder_beside_insertions :
    (Reachable (Term.pair (.int 1) (.int 2))
        ⟨.int 1, [⟨.pair (.int 1) (.int 2), .ofList [], .ofList [.list [.int 7], .int 2]⟩]⟩ ∧
      (∀ place, place ∈ (⟨.int 1, [⟨.pair (.int 1) (.int 2), .ofList [],
          .ofList [.list [.int 7], .int 2]⟩]⟩ : Zipper Term).positions.map route ↔
        (nodeAt (Term.block [.int 1, .list [.int 7], .int 2]) place).isSome ∧
          (place = [0] ∨ [0] < place)) ∧
      (ofTree (Term.pair (.int 1) (.int 2))).nodes.length = 3) ∧
    (Reachable (Document.object ⟨[("a", .null)], by decide⟩)
        ⟨.entry "a" .null, [⟨.object ⟨[("a", .null)], by decide⟩,
          .ofList [], .ofList [.entry "a" (.bool true)]⟩]⟩ ∧
      [1, 1] ∈ (⟨.entry "a" .null, [⟨.object ⟨[("a", .null)], by decide⟩,
          .ofList [], .ofList [.entry "a" (.bool true)]⟩]⟩ : Zipper Document).positions.map route ∧
      [] ∉ (⟨.entry "a" .null, [⟨.object ⟨[("a", .null)], by decide⟩,
          .ofList [], .ofList [.entry "a" (.bool true)]⟩]⟩ : Zipper Document).positions.map route) := by
  have hterm : Reachable (Term.pair (.int 1) (.int 2))
      ⟨.int 1, [⟨.pair (.int 1) (.int 2), .ofList [], .ofList [.list [.int 7], .int 2]⟩]⟩ :=
    .edit (.insertRight (.list [.int 7])) (.move (.move .down) .start rfl) rfl
  have hdocument : Reachable (Document.object ⟨[("a", .null)], by decide⟩)
      ⟨.entry "a" .null, [⟨.object ⟨[("a", .null)], by decide⟩,
        .ofList [], .ofList [.entry "a" (.bool true)]⟩]⟩ :=
    .edit (.insertRight (.entry "a" (.bool true))) (.move (.move .down) .start rfl) rfl
  obtain ⟨-, hplaces, -, hlisting⟩ := positions_enumerate_preorder hterm
  obtain ⟨hnodes, -, hlength⟩ := hlisting (.pair (.int 1) (.int 2))
  obtain ⟨-, hentries, -, -⟩ := positions_enumerate_preorder hdocument
  refine ⟨⟨hterm, hplaces, ?_⟩, hdocument, (hentries [1, 1]).mpr ?_, mt (hentries []).mp ?_⟩
  · rw [hnodes, hlength]
    rfl
  · exact ⟨rfl, by decide⟩
  · rintro ⟨-, hafter⟩
    exact absurd hafter (by decide)

end TreeCursor.Zipper
