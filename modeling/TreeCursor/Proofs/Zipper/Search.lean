import Mathlib.Data.List.Lex
import Mathlib.Order.Bounds.Basic
import TreeCursor.Proofs.Zipper.Scanning

/-!
# Searches

A step backward is a step forward taken back.  So in either direction a step leads to the nearest of
the places that lie in it, and a search ends at the nearest place with a node that is looked for,
the one that it starts from included, or else there is none.
-/

namespace TreeCursor

open TreeCursor.Tree

/-- The places that a scan in a direction meets after a place.  They are met in pre-order, which is
the lexicographic order of routes, or against it. -/
def Direction.Passes (dir : Direction) (place other : List ℕ) : Prop :=
  match dir with
  | .next => place < other
  | .prev => other < place

/-- The places that a scan in a direction meets, the first one included. -/
def Direction.Meets (dir : Direction) (place other : List ℕ) : Prop :=
  other = place ∨ dir.Passes place other

theorem Direction.meets_next_iff {place other : List ℕ} :
    Direction.next.Meets place other ↔ place ≤ other := by
  rw [le_iff_eq_or_lt, eq_comm]
  rfl

theorem Direction.meets_prev_iff {place other : List ℕ} :
    Direction.prev.Meets place other ↔ other ≤ place := by
  rw [le_iff_eq_or_lt]
  rfl

namespace Zipper

variable {α : Type*} [Tree α] [LawfulTree α]

/-! ## The step to the previous place -/

/-- The step forward after a step backward leads to the place where it was taken. -/
theorem exists_next_of_prev {z w : Zipper α} (hsound : Sound z) (hprev : z.prev = some w) :
    ∃ v, w.next = some v ∧ v.route = z.route := by
  unfold prev at hprev
  cases hleft : z.left with
  | some sibling =>
      rw [hleft] at hprev
      cases hprev
      obtain ⟨node, parent, sibling, lefts, rights, rest, rfl, rfl⟩ := exists_of_left hleft
      refine ⟨_, ?_, rfl⟩
      rw [next, down_deepestRightmost, skip_deepestRightmost]
      rfl
  | none =>
      rw [hleft] at hprev
      cases z using placeCases with
      | root node => cases hprev
      | child node parent lefts rights rest =>
          cases lefts with
          | cons sibling lefts => cases hleft
          | nil =>
              -- the previous place is the parent, rebuilt, and the focus is its first child again
              cases hprev
              obtain ⟨hbranch, -⟩ := sound_cons.mp hsound
              have hchildren : children (rebuild parent (node :: rights)) = node :: rights :=
                LawfulTree.children_rebuild hbranch _
              have hdown := down_of_children rest hchildren
              rw [next, fill_ofList, List.reverse_nil, List.nil_append, hdown]
              exact ⟨_, rfl, rfl⟩

omit [LawfulTree α] in
theorem prev_eq_none_iff {z : Zipper α} : z.prev = none ↔ z.route = [] := by
  cases z using placeCases with
  | root node => simp [prev, left, up, route]
  | child node parent lefts rights rest =>
      cases lefts <;> simp [prev, left_nil, left_cons, up, route]

/-- A step backward leads to the last of the places before the cursor. -/
theorem exists_prev_iff_lt {z : Zipper α} (hsound : Sound z) {place : List ℕ}
    (hplace : (nodeAt z.root place).isSome) :
    (∃ w, z.prev = some w ∧ (place = w.route ∨ place < w.route)) ↔ place < z.route := by
  cases hprev : z.prev with
  | none => simp [prev_eq_none_iff.mp hprev]
  | some w =>
      have hreaches : Reaches z w := reaches_prev hprev
      have hroot : w.root = z.root := root_of_reaches hreaches
      have hsound' : Sound w := sound_of_reaches hsound hreaches
      obtain ⟨v, hv, hroute⟩ := exists_next_of_prev hsound hprev
      have hless : w.route < z.route := hroute ▸ route_lt_of_next hsound' hv
      constructor
      · rintro ⟨w', hw', heq | hbefore⟩
        · cases hw'
          exact heq ▸ hless
        · cases hw'
          exact lt_trans hbefore hless
      · intro hbefore
        refine ⟨w, rfl, ?_⟩
        -- what comes after the previous place comes at or after the cursor
        by_contra hnot
        rw [not_or] at hnot
        have hafter : w.route < place := (lt_or_gt_of_ne hnot.1).resolve_left hnot.2
        obtain ⟨v', hv', hv'place⟩ := (exists_next_iff_lt hsound' (hroot ▸ hplace)).mpr hafter
        obtain rfl : v = v' := Option.some.inj (hv.symm.trans hv')
        rw [hroute] at hv'place
        rcases hv'place with rfl | hafter'
        · exact lt_irrefl _ hbefore
        · exact lt_asymm hbefore hafter'

theorem route_lt_of_prev {z w : Zipper α} (hsound : Sound z) (hprev : z.prev = some w) :
    w.route < z.route :=
  (exists_prev_iff_lt hsound (isSome_nodeAt_of_reaches hsound (reaches_prev hprev))).mp
    ⟨w, hprev, .inl rfl⟩

/-- In either direction a step leads to the nearest of the places that it passes. -/
theorem exists_step_iff_passes {dir : Direction} {z : Zipper α} (hsound : Sound z)
    {place : List ℕ} (hplace : (nodeAt z.root place).isSome) :
    (∃ w, z.step dir = some w ∧ dir.Meets w.route place) ↔ dir.Passes z.route place := by
  cases dir with
  | next => exact exists_next_iff_lt hsound hplace
  | prev => exact exists_prev_iff_lt hsound hplace

omit [LawfulTree α] in
theorem reaches_step {dir : Direction} {z w : Zipper α} (hstep : z.step dir = some w) :
    Reaches z w := by
  cases dir with
  | next => exact reaches_next hstep
  | prev => exact reaches_prev hstep

theorem meets_iff_of_step_eq_none {dir : Direction} {z : Zipper α} (hsound : Sound z)
    (hstep : z.step dir = none) {place : List ℕ} (hplace : (nodeAt z.root place).isSome) :
    dir.Meets z.route place ↔ place = z.route := by
  refine or_iff_left fun hpasses => ?_
  obtain ⟨w, hw, -⟩ := (exists_step_iff_passes hsound hplace).mpr hpasses
  cases hstep.symm.trans hw

theorem meets_iff_of_step_eq_some {dir : Direction} {z w : Zipper α} (hsound : Sound z)
    (hstep : z.step dir = some w) {place : List ℕ} (hplace : (nodeAt z.root place).isSome) :
    dir.Meets z.route place ↔ place = z.route ∨ dir.Meets w.route place := by
  rw [Direction.Meets, ← exists_step_iff_passes hsound hplace, hstep]
  simp

/-! ## The search -/

/-- The nearest of the places from the start on that have a node which is looked for. -/
structure FirstMatch (dir : Direction) (p : α → Prop) (tree : α) (start place : List ℕ) (node : α) :
    Prop where
  nodeAt_place : nodeAt tree place = some node
  holds : p node
  meets : dir.Meets start place
  first : ∀ other node', nodeAt tree other = some node' → p node' → dir.Meets start other →
    dir.Meets place other

variable {dir : Direction} {p : α → Bool}

/-- A search ends at the nearest match. -/
theorem find_firstMatch {z w : Zipper α} (hsound : Sound z) (hfind : z.find dir p = some w) :
    FirstMatch dir (fun node => p node = true) z.root z.route w.route w.focus := by
  fun_induction find dir p z with
  | case1 z hp =>
      cases hfind
      exact ⟨nodeAt_route hsound, hp, .inl rfl, fun _ _ _ _ hmeets => hmeets⟩
  | case2 z hp hstep => cases hfind
  | case3 z hp v hstep ih =>
      have hreaches : Reaches z v := reaches_step hstep
      have hmatch := ih (sound_of_reaches hsound hreaches) hfind
      rw [root_of_reaches hreaches] at hmatch
      refine ⟨hmatch.nodeAt_place, hmatch.holds, ?_, ?_⟩
      · rw [meets_iff_of_step_eq_some hsound hstep (by rw [hmatch.nodeAt_place]; rfl)]
        exact .inr hmatch.meets
      · intro other node' hother hp' hmeets
        rw [meets_iff_of_step_eq_some hsound hstep (by rw [hother]; rfl)] at hmeets
        rcases hmeets with rfl | hmeets
        · rw [nodeAt_route hsound] at hother
          cases hother
          exact absurd hp' hp
        · exact hmatch.first other node' hother hp' hmeets

/-- A search finds something unless there is nothing to be found. -/
theorem exists_find_iff {z : Zipper α} (hsound : Sound z) :
    (∃ w, z.find dir p = some w) ↔
      ∃ place node, nodeAt z.root place = some node ∧ dir.Meets z.route place ∧ p node = true := by
  constructor
  · rintro ⟨w, hfind⟩
    have hmatch := find_firstMatch hsound hfind
    exact ⟨w.route, w.focus, hmatch.nodeAt_place, hmatch.meets, hmatch.holds⟩
  · rintro ⟨place, node, hplace, hmeets, hp⟩
    have hsome : (nodeAt z.root place).isSome := by
      rw [hplace]
      rfl
    fun_induction find dir p z with
    | case1 z hp' => exact ⟨z, rfl⟩
    | case2 z hp' hstep =>
        obtain rfl := (meets_iff_of_step_eq_none hsound hstep hsome).mp hmeets
        rw [nodeAt_route hsound] at hplace
        cases hplace
        exact absurd hp hp'
    | case3 z hp' v hstep ih =>
        have hreaches : Reaches z v := reaches_step hstep
        rcases (meets_iff_of_step_eq_some hsound hstep hsome).mp hmeets with rfl | hmeets
        · rw [nodeAt_route hsound] at hplace
          cases hplace
          exact absurd hp hp'
        · rw [← root_of_reaches hreaches] at hplace hsome
          exact ih (sound_of_reaches hsound hreaches) hplace hmeets hsome

omit [LawfulTree α] in
theorem reaches_find {z w : Zipper α} (hfind : z.find dir p = some w) : Reaches z w := by
  fun_induction find dir p z with
  | case1 z hp =>
      cases hfind
      exact .refl
  | case2 z hp hstep => cases hfind
  | case3 z hp v hstep ih => exact (reaches_step hstep).trans (ih hfind)

omit [LawfulTree α] in
theorem scan_eq (dir : Direction) (z : Zipper α) :
    z.scan dir = z :: (z.step dir).elim [] (scan dir) := by
  rw [scan]
  split
  · next hstep => rw [hstep, Option.elim_none]
  · next w hstep => rw [hstep, Option.elim_some]

omit [LawfulTree α] in
theorem find_eq_find?_scan (z : Zipper α) :
    z.find dir p = (z.scan dir).find? fun w => p w.focus := by
  fun_induction find dir p z with
  | case1 z hp => simp [scan_eq, hp]
  | case2 z hp hstep => simp [scan_eq dir z, hp, hstep]
  | case3 z hp w hstep ih => simp [scan_eq dir z, hp, hstep, ih]

/-- The places of a tree that have a node which is looked for. -/
def matchingRoutes (p : α → Bool) (tree : α) : Set (List ℕ) :=
  {place | (nodeAt tree place).any p}

omit [LawfulTree α] in
theorem mem_matchingRoutes {tree : α} {place : List ℕ} :
    place ∈ matchingRoutes p tree ↔ ∃ node, nodeAt tree place = some node ∧ p node = true :=
  Option.any_eq_true ..

omit [LawfulTree α] in
theorem FirstMatch.matching {tree node : α} {start place : List ℕ}
    (hmatch : FirstMatch dir (fun node => p node = true) tree start place node) :
    place ∈ matchingRoutes p tree ∧ dir.Meets start place ∧
      ∀ other ∈ matchingRoutes p tree, dir.Meets start other → dir.Meets place other := by
  refine ⟨mem_matchingRoutes.mpr ⟨node, hmatch.nodeAt_place, hmatch.holds⟩, hmatch.meets, ?_⟩
  intro other hother hmeets
  obtain ⟨node', hnode', hp⟩ := mem_matchingRoutes.mp hother
  exact hmatch.first other node' hnode' hp hmeets

theorem find_eq_none_iff {z : Zipper α} (hsound : Sound z) :
    z.find dir p = none ↔ ∀ place ∈ matchingRoutes p z.root, ¬dir.Meets z.route place := by
  rw [← not_iff_not, ← ne_eq, Option.ne_none_iff_exists', exists_find_iff hsound]
  push Not
  simp only [mem_matchingRoutes]
  constructor
  · rintro ⟨place, node, hnode, hmeets, hp⟩
    exact ⟨place, ⟨node, hnode, hp⟩, hmeets⟩
  · rintro ⟨place, ⟨node, hnode, hp⟩, hmeets⟩
    exact ⟨place, node, hnode, hmeets, hp⟩

/-- A search finds the first match of its scan.  Whatever the history of the cursor, forward it is
at the least matching route of the tree at or after the cursor, backward at the greatest one at or
before it, and there is none only if there is no such route. -/
theorem find_nearest {tree : α} {z : Zipper α} (hreachable : Reachable tree z) (p : α → Bool) :
    (∀ dir, z.find dir p = (z.scan dir).find? fun w => p w.focus) ∧
    (∀ dir w, z.find dir p = some w → w.root = z.root ∧ nodeAt z.root w.route = some w.focus) ∧
    (∀ w, z.find .next p = some w →
      IsLeast (matchingRoutes p z.root ∩ Set.Ici z.route) w.route) ∧
    (z.find .next p = none ↔ matchingRoutes p z.root ∩ Set.Ici z.route = ∅) ∧
    (∀ w, z.find .prev p = some w →
      IsGreatest (matchingRoutes p z.root ∩ Set.Iic z.route) w.route) ∧
    (z.find .prev p = none ↔ matchingRoutes p z.root ∩ Set.Iic z.route = ∅) := by
  have hsound : Sound z := sound_of_reachable hreachable
  refine ⟨fun dir => find_eq_find?_scan z, ?_, ?_, ?_, ?_, ?_⟩
  · intro dir w hfind
    have hreaches : Reaches z w := reaches_find hfind
    exact ⟨root_of_reaches hreaches, nodeAt_route_of_reaches hsound hreaches⟩
  · intro w hfind
    obtain ⟨hplace, hmeets, hfirst⟩ := (find_firstMatch hsound hfind).matching
    simp only [Direction.meets_next_iff] at hmeets hfirst
    exact ⟨⟨hplace, hmeets⟩, fun other hother => hfirst other hother.1 hother.2⟩
  · rw [find_eq_none_iff hsound, Set.eq_empty_iff_forall_notMem]
    simp [Direction.meets_next_iff]
  · intro w hfind
    obtain ⟨hplace, hmeets, hfirst⟩ := (find_firstMatch hsound hfind).matching
    simp only [Direction.meets_prev_iff] at hmeets hfirst
    exact ⟨⟨hplace, hmeets⟩, fun other hother => hfirst other hother.1 hother.2⟩
  · rw [find_eq_none_iff hsound, Set.eq_empty_iff_forall_notMem]
    simp [Direction.meets_prev_iff]

/-- Backward from the third child of what the cursor still keeps as a pair, the nearest block is
the root that it will be.  Forward from the value of an entry that has been copied, the nearest
text is the key of the copy. -/
theorem find_nearest_beside_insertions :
    (Reachable (Term.pair (.int 1) (.int 2))
        ⟨.int 2, [⟨.pair (.int 1) (.int 2), .ofList [.int 7, .int 1], .ofList []⟩]⟩ ∧
      find .prev (fun node => node matches .block _)
          (⟨.int 2, [⟨.pair (.int 1) (.int 2), .ofList [.int 7, .int 1], .ofList []⟩]⟩ :
            Zipper Term) = some ⟨.block [.int 1, .int 7, .int 2], []⟩ ∧
      IsGreatest (matchingRoutes (fun node => node matches .block _)
        (Term.block [.int 1, .int 7, .int 2]) ∩ Set.Iic [2]) []) ∧
    (Reachable (Document.object ⟨[("a", .null)], by decide⟩)
        ⟨.null, [⟨.entry "a" .null, .ofList [.string "a"], .ofList []⟩,
          ⟨.object ⟨[("a", .null)], by decide⟩, .ofList [], .ofList [.entry "a" .null]⟩]⟩ ∧
      IsLeast (matchingRoutes (fun node => node.value matches .string _)
        (Document.array [.entry "a" .null, .entry "a" .null]) ∩ Set.Ici [0, 1]) [1, 0]) := by
  have hterm : Reachable (Term.pair (.int 1) (.int 2))
      ⟨.int 2, [⟨.pair (.int 1) (.int 2), .ofList [.int 7, .int 1], .ofList []⟩]⟩ :=
    .edit (.insertLeft (.int 7))
      (.move (.move .right) (.move (.move .down) .start rfl) rfl) rfl
  have hdocument : Reachable (Document.object ⟨[("a", .null)], by decide⟩)
      ⟨.null, [⟨.entry "a" .null, .ofList [.string "a"], .ofList []⟩,
        ⟨.object ⟨[("a", .null)], by decide⟩, .ofList [], .ofList [.entry "a" .null]⟩]⟩ :=
    .move (.move .right) (.move (.move .down)
      (.edit (.insertRight (.entry "a" .null)) (.move (.move .down) .start rfl) rfl) rfl) rfl
  have hblock : find .prev (fun node => node matches .block _)
      (⟨.int 2, [⟨.pair (.int 1) (.int 2), .ofList [.int 7, .int 1], .ofList []⟩]⟩ :
        Zipper Term) = some ⟨.block [.int 1, .int 7, .int 2], []⟩ := by cbv
  obtain ⟨-, -, -, -, hgreatest, -⟩ := find_nearest hterm fun node => node matches .block _
  obtain ⟨-, -, hleast, -⟩ := find_nearest hdocument fun node => node.value matches .string _
  have htext : find .next (fun node => node.value matches .string _)
      (⟨.null, [⟨.entry "a" .null, .ofList [.string "a"], .ofList []⟩,
        ⟨.object ⟨[("a", .null)], by decide⟩, .ofList [], .ofList [.entry "a" .null]⟩]⟩ :
          Zipper Document) =
        some ⟨.string "a", [⟨.entry "a" .null, .ofList [], .ofList [.null]⟩,
          ⟨.object ⟨[("a", .null)], by decide⟩, .ofList [.entry "a" .null], .ofList []⟩]⟩ := by
    cbv
  exact ⟨⟨hterm, hblock, hgreatest _ hblock⟩, hdocument, hleast _ htext⟩

end Zipper

end TreeCursor
