import TreeCursor.Proofs.Script.Reading
import TreeCursor.Proofs.Zipper.Navigation

/-!
# Scripts along routes

The script of a route goes down once for every index of it, and then to the right as often as the
index says.  Written and read again these are the steps from the root of a tree to the place at the
route.  A cursor with pending edits has its route in the tree that it would fold to, whatever shapes
the nodes above it take there, so that its script leads back to it in that tree.
-/

namespace TreeCursor.Script

open TreeCursor.Tree

/-! ## The steps of a route -/

theorem mem_stepsTo {index : ℕ} {made : Step} (hmade : made ∈ stepsTo index) :
    made = ⟨.down, 1⟩ ∨ 0 < index ∧ made = ⟨.right, index⟩ := by
  rw [stepsTo] at hmade
  split at hmade
  · exact Or.inl (List.mem_singleton.mp hmade)
  · next hindex =>
      rw [List.mem_cons, List.mem_singleton] at hmade
      exact hmade.imp_right fun heq => ⟨Nat.pos_of_ne_zero hindex, heq⟩

/-- The script of a route is read as the steps that it was written for. -/
theorem parse_forRoute {route : List ℕ} (hroute : ∀ index ∈ route, index < 2 ^ 64) :
    parse (forRoute route) = .ok (route.flatMap stepsTo) := by
  apply parse_render
  intro made hmade
  obtain ⟨index, hindex, hmade⟩ := List.mem_flatMap.mp hmade
  obtain rfl | ⟨hpos, rfl⟩ := mem_stepsTo hmade
  · exact ⟨by decide, by decide⟩
  · exact ⟨hpos, hroute index hindex⟩

theorem stepsTo_eq (index : ℕ) :
    stepsTo index = ⟨.down, 1⟩ :: if 0 < index then [⟨.right, index⟩] else [] := by
  cases index <;> rfl

/-! ## The run of a script -/

section Run

variable {α : Type*} [Tree α]

theorem repeatMove_induction {motive : Zipper α → Prop} {kind : Move}
    (hmove : ∀ z w, motive z → kind.apply z = some w → motive w) {times completed : ℕ}
    {z w : Zipper α} (hz : motive z) (hrepeat : repeatMove kind times completed z = .ok w) :
    motive w := by
  induction times generalizing completed z with
  | zero =>
      cases hrepeat
      exact hz
  | succ times ih =>
      rw [repeatMove] at hrepeat
      split at hrepeat
      · cases hrepeat
      · next v happly => exact ih (hmove z v hz happly) hrepeat

/-- What every move keeps is kept by a run that succeeds. -/
theorem runFrom_induction {motive : Zipper α → Prop}
    (hmove : ∀ (kind : Move) z w, motive z → kind.apply z = some w → motive w)
    {position : ℕ} {steps : List Step} {z w : Zipper α} (hz : motive z)
    (hrun : runFrom position steps z = .ok w) : motive w := by
  induction steps generalizing position z with
  | nil =>
      cases hrun
      exact hz
  | cons made steps ih =>
      rw [runFrom] at hrun
      split at hrun
      · cases hrun
      · next v hrepeat => exact ih (repeatMove_induction (hmove made.move) hz hrepeat) hrun

theorem reaches_run {steps : List Step} {z w : Zipper α} (hrun : run steps z = .ok w) :
    Zipper.Reaches z w := by
  apply runFrom_induction (motive := Zipper.Reaches z) _ .refl hrun
  intro kind v v' hv hmove
  exact hv.trans (Zipper.reaches_move hmove)

theorem walked_run {tree : α} {steps : List Step} {w : Zipper α}
    (hrun : run steps (.ofTree tree) = .ok w) : Zipper.Walked tree w := by
  apply runFrom_induction (motive := Zipper.Walked tree) _ .start hrun
  intro kind v v' hv hmove
  exact .move (.move kind) hv hmove

/-- To the right there are as many moves as siblings. -/
theorem exists_repeatMove_right {node child : α} (parent : α) (lefts : List α) {rights : List α}
    (rest : List (Frame α)) {times : ℕ} (completed : ℕ)
    (hchild : (node :: rights)[times]? = some child) :
    ∃ lefts' rights', lefts'.length = lefts.length + times ∧
      repeatMove .right times completed ⟨node, ⟨parent, .ofList lefts, .ofList rights⟩ :: rest⟩ =
        .ok ⟨child, ⟨parent, .ofList lefts', .ofList rights'⟩ :: rest⟩ := by
  induction times generalizing node lefts rights completed with
  | zero =>
      cases hchild
      exact ⟨lefts, rights, rfl, rfl⟩
  | succ times ih =>
      rw [List.getElem?_cons_succ] at hchild
      cases rights with
      | nil => cases hchild
      | cons sibling rights =>
          obtain ⟨lefts', rights', hlength, hrepeat⟩ :=
            ih (node :: lefts) (completed + 1) hchild
          refine ⟨lefts', rights', ?_, hrepeat⟩
          rw [hlength, List.length_cons, Nat.add_right_comm, Nat.add_assoc]

theorem runFrom_cons {made : Step} {z w : Zipper α} (position : ℕ) (steps : List Step)
    (hrepeat : repeatMove made.move made.times 0 z = .ok w) :
    runFrom position (made :: steps) z = runFrom (position + 1) steps w := by
  rw [runFrom, hrepeat]

/-- The steps to a child lead to it, and the rest of a script is run from there. -/
theorem exists_runFrom_stepsTo [LawfulTree α] {z : Zipper α} {index : ℕ} {child : α}
    (hchild : (children z.focus)[index]? = some child) (position : ℕ) (steps : List Step) :
    ∃ w position', w.focus = child ∧ w.route = z.route ++ [index] ∧
      runFrom position (stepsTo index ++ steps) z = runFrom position' steps w := by
  obtain ⟨node, path⟩ := z
  obtain ⟨first, others, hchildren⟩ : ∃ first others, children node = first :: others :=
    List.exists_cons_of_ne_nil fun hnil => by simp [hnil] at hchild
  rw [hchildren] at hchild
  obtain ⟨lefts, rights, hlength, hright⟩ :=
    exists_repeatMove_right node [] path 0 hchild
  have hdown : repeatMove .down 1 0 ⟨node, path⟩ =
      .ok ⟨first, ⟨node, .ofList [], .ofList others⟩ :: path⟩ := by
    rw [repeatMove, Move.apply, Zipper.down_of_children path hchildren]
    rfl
  have hroute : Zipper.route ⟨child, ⟨node, .ofList lefts, .ofList rights⟩ :: path⟩ =
      Zipper.route ⟨node, path⟩ ++ [index] := by
    rw [Zipper.route_cons child node, hlength, List.length_nil, Nat.zero_add]
  by_cases hindex : index = 0
  · subst hindex
    rw [Except.ok.inj hright] at hdown
    refine ⟨_, position + 1, rfl, hroute, ?_⟩
    exact runFrom_cons position steps hdown
  · refine ⟨_, position + 1 + 1, rfl, hroute, ?_⟩
    rw [stepsTo, if_neg hindex, List.cons_append, List.singleton_append,
      runFrom_cons position _ hdown, runFrom_cons (position + 1) steps hright]

/-- The steps of a route lead to the place that it has below the cursor. -/
theorem exists_runFrom_route [LawfulTree α] {z : Zipper α} {route : List ℕ}
    (hplace : (nodeAt z.focus route).isSome) (position : ℕ) :
    ∃ w, runFrom position (route.flatMap stepsTo) z = .ok w ∧ w.route = z.route ++ route := by
  induction route generalizing z position with
  | nil => exact ⟨z, rfl, (List.append_nil z.route).symm⟩
  | cons index route ih =>
      rw [nodeAt_cons, Option.isSome_bind] at hplace
      cases hchild : (children z.focus)[index]? with
      | none =>
          rw [hchild] at hplace
          cases hplace
      | some child =>
          obtain ⟨v, position', rfl, hv, hrun⟩ :=
            exists_runFrom_stepsTo hchild position (route.flatMap stepsTo)
          rw [hchild] at hplace
          obtain ⟨w, hw, hroute⟩ := ih hplace position'
          refine ⟨w, hrun.trans hw, ?_⟩
          rw [hroute, hv, List.append_assoc, List.singleton_append]

/-- The script of a route leads from the root of a tree to the place that the tree has there. -/
theorem exists_run_route [LawfulTree α] {tree node : α} {route : List ℕ}
    (hplace : nodeAt tree route = some node) :
    ∃ w, run (route.flatMap stepsTo) (.ofTree tree) = .ok w ∧ w.root = tree ∧ w.route = route ∧
      w.focus = node := by
  obtain ⟨w, hrun, hroute⟩ :=
    exists_runFrom_route (z := .ofTree tree) (hplace ▸ rfl : (nodeAt tree route).isSome) 1
  have hreaches : Zipper.Reaches (.ofTree tree) w := reaches_run hrun
  have hroot : w.root = tree := Zipper.root_of_reaches hreaches
  have hfocus := Zipper.nodeAt_route (Zipper.sound_of_reaches (Zipper.sound_ofTree tree) hreaches)
  rw [hroot, hroute] at hfocus
  exact ⟨w, hrun, hroot, hroute, Option.some.inj (hfocus.symm.trans hplace)⟩

/-- Moves lead to every place of a tree. -/
theorem exists_walked [LawfulTree α] {tree node : α} {route : List ℕ}
    (hplace : nodeAt tree route = some node) : ∃ z, Zipper.Walked tree z ∧ z.route = route := by
  obtain ⟨z, hrun, -, hroute, -⟩ := exists_run_route hplace
  exact ⟨z, walked_run hrun, hroute⟩

end Run

/-- The script of a route is read as one step down for every index and as many to the right as the
index says, whether or not a tree has a place there; an index is a count of 64 bits.  Whatever the
history of a cursor, the script of its route leads from the root of the tree that it stands in to its
own place and node. -/
theorem route_script_leads_back {α : Type*} [Tree α] [LawfulTree α] :
    (∀ route : List ℕ, (∀ index ∈ route, index < 2 ^ 64) →
      parse (forRoute route) = .ok (route.flatMap fun index =>
        ⟨.down, 1⟩ :: if 0 < index then [⟨.right, index⟩] else [])) ∧
    (∀ (tree : α) (z : Zipper α), Zipper.Reachable tree z →
      (∀ index ∈ z.route, index < 2 ^ 64) →
      ∃ steps w, parse (forRoute z.route) = .ok steps ∧ run steps (.ofTree z.root) = .ok w ∧
        w.root = z.root ∧ w.route = z.route ∧ w.focus = z.focus) := by
  constructor
  · intro route hroute
    rw [parse_forRoute hroute]
    congr 2
    funext index
    exact stepsTo_eq index
  · intro tree z hreachable hroute
    have hplace : nodeAt z.root z.route = some z.focus :=
      Zipper.nodeAt_route (Zipper.sound_of_reachable hreachable)
    obtain ⟨w, hrun, hw⟩ := exists_run_route hplace
    exact ⟨z.route.flatMap stepsTo, w, parse_forRoute hroute, hrun, hw⟩

/-- The second child of what was a pair has become the third one of a block, and the value of a
member stands in what will be an array of two entries with the same key. -/
theorem route_script_leads_back_beside_insertions :
    ((∀ index ∈ [0, 12], index < 2 ^ 64) ∧
      parse (forRoute [0, 12]) = .ok [⟨.down, 1⟩, ⟨.down, 1⟩, ⟨.right, 12⟩]) ∧
    (Zipper.Reachable (Term.pair (.int 1) (.int 2))
        ⟨.int 2, [⟨.pair (.int 1) (.int 2), .ofList [.int 7, .int 1], .ofList []⟩]⟩ ∧
      ∃ steps w, parse (forRoute [2]) = .ok steps ∧
        run steps (.ofTree (Term.block [.int 1, .int 7, .int 2])) = .ok w ∧
        w.root = .block [.int 1, .int 7, .int 2] ∧ w.route = [2] ∧ w.focus = .int 2) ∧
    (Zipper.Reachable (Document.object ⟨[("a", .null)], by decide⟩)
        ⟨.string "a", [⟨.entry "a" .null, .ofList [], .ofList [.null]⟩,
          ⟨.object ⟨[("a", .null)], by decide⟩,
            .ofList [.entry "a" (.bool true)], .ofList []⟩]⟩ ∧
      ∃ steps w, parse (forRoute [1, 0]) = .ok steps ∧
        run steps (.ofTree (Document.array [.entry "a" (.bool true), .entry "a" .null])) = .ok w ∧
        w.root = .array [.entry "a" (.bool true), .entry "a" .null] ∧ w.route = [1, 0] ∧
        w.focus = .string "a") := by
  have hterm : Zipper.Reachable (Term.pair (.int 1) (.int 2))
      ⟨.int 2, [⟨.pair (.int 1) (.int 2), .ofList [.int 7, .int 1], .ofList []⟩]⟩ :=
    .edit (.insertLeft (.int 7))
      (.move (.move .right) (.move (.move .down) .start rfl) rfl) rfl
  have hdocument : Zipper.Reachable (Document.object ⟨[("a", .null)], by decide⟩)
      ⟨.string "a", [⟨.entry "a" .null, .ofList [], .ofList [.null]⟩,
        ⟨.object ⟨[("a", .null)], by decide⟩,
          .ofList [.entry "a" (.bool true)], .ofList []⟩]⟩ :=
    .move (.move .down)
      (.edit (.insertLeft (.entry "a" (.bool true))) (.move (.move .down) .start rfl) rfl) rfl
  have hindices : ∀ index ∈ [0, 12], index < 2 ^ 64 := by decide
  refine ⟨⟨hindices, ?_⟩, ⟨hterm, ?_⟩, hdocument, ?_⟩
  · exact ((route_script_leads_back (α := Term)).1 [0, 12] hindices).trans rfl
  · have hback := route_script_leads_back.2 _ _ hterm (by decide)
    exact hback
  · have hback := route_script_leads_back.2 _ _ hdocument (by decide)
    exact hback

end TreeCursor.Script
