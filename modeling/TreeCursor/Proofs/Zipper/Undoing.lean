import TreeCursor.Proofs.Zipper.Removal

/-!
# Insertions taken back

A new sibling is inserted beside a cursor, gone to and removed again.  Nothing is folded in between,
so that the tree is afterwards what it was, even where the parent could not have kept its shape over
one child more.  The removal does not lead back to the cursor itself, though.  From the right it
leads to the last place of the cursor's own subtree, and from the left to the place before the
cursor.
-/

namespace TreeCursor.Zipper

open TreeCursor.Tree

variable {α : Type*} [Tree α]

/-- A new sibling is inserted beside the first cursor, gone to and removed, which leads to the
second cursor. -/
def TakenBack (insertion : α → Edit α) (toward : Move) (node : α) (z w : Zipper α) : Prop :=
  ∃ wide inserted, (insertion node).apply z = .ok wide ∧ toward.apply wide = some inserted ∧
    inserted.focus = node ∧ inserted.remove = .ok w

section Child

variable (x node parent : α) (lefts rights : List α) (rest : List (Frame α))

/-- The removal of a sibling to the right goes down from the cursor itself. -/
theorem takenBack_right :
    TakenBack .insertRight .right x ⟨node, ⟨parent, .ofList lefts, .ofList rights⟩ :: rest⟩
      (deepestRightmost ⟨node, ⟨parent, .ofList lefts, .ofList rights⟩ :: rest⟩) :=
  ⟨⟨node, ⟨parent, .ofList lefts, .ofList (x :: rights)⟩ :: rest⟩,
    ⟨x, ⟨parent, .ofList (node :: lefts), .ofList rights⟩ :: rest⟩, rfl, rfl, rfl,
    remove_cons x parent node lefts rights rest⟩

/-- The removal of a sibling to the left is a step backward from the cursor. -/
theorem exists_remove_eq_prev :
    ∃ w, remove ⟨x, ⟨parent, .ofList lefts, .ofList (node :: rights)⟩ :: rest⟩ = .ok w ∧
      prev ⟨node, ⟨parent, .ofList lefts, .ofList rights⟩ :: rest⟩ = some w := by
  cases lefts with
  | nil => exact ⟨_, remove_nil .., up_child node parent [] rights rest⟩
  | cons sibling lefts => exact ⟨_, remove_cons .., rfl⟩

theorem exists_takenBack_left :
    ∃ w, TakenBack .insertLeft .left x ⟨node, ⟨parent, .ofList lefts, .ofList rights⟩ :: rest⟩ w ∧
      prev ⟨node, ⟨parent, .ofList lefts, .ofList rights⟩ :: rest⟩ = some w := by
  obtain ⟨w, hremove, hprev⟩ := exists_remove_eq_prev x node parent lefts rights rest
  exact ⟨w, ⟨⟨node, ⟨parent, .ofList (x :: lefts), .ofList rights⟩ :: rest⟩, _, rfl, rfl, rfl,
    hremove⟩, hprev⟩

end Child

variable [LawfulTree α]

/-- Down through last children lies the last place of the subtree in focus. -/
theorem nodeAt_lastRoute {z : Zipper α} (hsound : Sound z) :
    nodeAt z.focus (lastRoute z.focus) = some z.deepestRightmost.focus := by
  have hplace : nodeAt z.root z.deepestRightmost.route = some z.deepestRightmost.focus :=
    nodeAt_route_of_reaches hsound (reaches_deepestRightmost z)
  rwa [route_deepestRightmost, nodeAt_append, nodeAt_route hsound, Option.bind_some] at hplace

/-- The step backward leads to the place whose number in pre-order is one less. -/
theorem preorderIndex_prev {z w : Zipper α} (hsound : Sound z) (hprev : z.prev = some w) :
    preorderIndex z.root w.route + 1 = preorderIndex z.root z.route := by
  have hreaches : Reaches z w := reaches_prev hprev
  have hbehind : w.behind + 1 = z.behind := by
    cases z using placeCases with
    | root node => cases hprev
    | child node parent lefts rights rest =>
        obtain ⟨v, hremove, hv⟩ := exists_remove_eq_prev node node parent lefts rights rest
        cases hprev.symm.trans hv
        -- what is to the right does not count
        exact (behind_remove hremove).trans rfl
  rw [← root_of_reaches hreaches, preorderIndex_route (sound_of_reaches hsound hreaches),
    root_of_reaches hreaches, preorderIndex_route hsound, hbehind]

/-- Whatever the history of a cursor below the root, a sibling that is inserted on either side of it
can be gone to and removed again, and the tree is what it was.  On the right side this leads to the
last place in pre-order of the cursor's own subtree, and on the left side one place back. -/
theorem exists_takenBack {tree : α} {z : Zipper α} (hreachable : Reachable tree z)
    (hroot : z.isRoot = false) (node : α) :
    (∃ w, TakenBack .insertRight .right node z w ∧ w.root = z.root ∧
      ∃ below, (routes z.focus).getLast? = some below ∧ w.route = z.route ++ below ∧
        nodeAt z.focus below = some w.focus) ∧
    (∃ w, TakenBack .insertLeft .left node z w ∧ w.root = z.root ∧ z.prev = some w ∧
      preorderIndex z.root w.route + 1 = preorderIndex z.root z.route ∧
      nodeAt z.root w.route = some w.focus) := by
  have hsound : Sound z := sound_of_reachable hreachable
  cases z using placeCases with
  | root focus => cases hroot
  | child focus parent lefts rights rest =>
      constructor
      · refine ⟨_, takenBack_right node focus parent lefts rights rest,
          root_of_reaches (reaches_deepestRightmost _), lastRoute focus, getLast?_routes focus,
          route_deepestRightmost _, nodeAt_lastRoute hsound⟩
      · obtain ⟨w, htaken, hprev⟩ := exists_takenBack_left node focus parent lefts rights rest
        have hreaches := reaches_prev hprev
        exact ⟨w, htaken, root_of_reaches hreaches, hprev, preorderIndex_prev hsound hprev,
          nodeAt_route_of_reaches hsound hreaches⟩

/-- With a third child a pair would be a block and with such a child an object would be an array,
but both stay. -/
theorem exists_takenBack_in_pair_and_object :
    let z : Zipper Term :=
      ⟨.list [.int 7], [⟨.pair (.int 1) (.list [.int 7]), .ofList [.int 1], .ofList []⟩]⟩
    let v : Zipper Document :=
      ⟨.entry "a" .null, [⟨.object ⟨[("a", .null)], by decide⟩, .ofList [], .ofList []⟩]⟩
    (Reachable (Term.pair (.int 1) (.list [.int 7])) z ∧
      (z.insertRight (.int 2)).toOption.map root =
        some (.block [.int 1, .list [.int 7], .int 2]) ∧
      ∃ w, TakenBack .insertRight .right (.int 2) z w ∧ w.root = .pair (.int 1) (.list [.int 7]) ∧
        w.route = [1, 0]) ∧
    (Reachable (Document.object ⟨[("a", .null)], by decide⟩) v ∧
      (v.insertLeft .null).toOption.map root = some (.array [.null, .entry "a" .null]) ∧
      ∃ w, TakenBack .insertLeft .left .null v w ∧
        w = ofTree (.object ⟨[("a", .null)], by decide⟩)) := by
  intro z v
  have hterm : Reachable (Term.pair (.int 1) (.list [.int 7])) z :=
    .move (.move .right) (.move (.move .down) .start rfl) rfl
  have hdocument : Reachable (Document.object ⟨[("a", .null)], by decide⟩) v :=
    .move (.move .down) .start rfl
  obtain ⟨⟨w, htaken, hroot, below, hlast, hroute, -⟩, -⟩ :=
    exists_takenBack hterm rfl (.int 2)
  obtain ⟨-, w', htaken', -, hprev, -⟩ := exists_takenBack hdocument rfl .null
  refine ⟨⟨hterm, rfl, w, htaken, hroot, ?_⟩, hdocument, rfl, w', htaken', ?_⟩
  · have hbelow : lastRoute (Term.list [.int 7]) = [0] := by
      rw [lastRoute_of_children_eq_append [] rfl, lastRoute_of_children_eq_nil rfl]
      rfl
    rw [getLast?_routes, hbelow] at hlast
    cases hlast
    exact hroute
  · exact (Option.some.inj hprev).symm

end TreeCursor.Zipper
