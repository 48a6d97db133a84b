import TreeCursor.Proofs.Zipper.Editing
import TreeCursor.Proofs.Zipper.Search

/-!
# Skips as repeated steps

A skip forward is as many steps as the subtree in focus has nodes: the steps go through the subtree,
whose nodes are rebuilt on the way as they were, and the last one leaves it.  A skip backward passes
the ancestors that steps backward would come to first, and then stops at the root of the subtree where
they would come to the last place.
-/

namespace TreeCursor.Zipper

open TreeCursor.Tree

variable {α : Type*} [Tree α]

/-- The place to which so many steps lead in the given direction. -/
def stepTimes (dir : Direction) : ℕ → Zipper α → Option (Zipper α)
  | 0, z => some z
  | times + 1, z => (z.step dir).bind (stepTimes dir times)

/-- The first cursor stands at an ancestor of the second one. -/
def Above (w z : Zipper α) : Prop :=
  ∃ index below, z.route = w.route ++ index :: below

section StepTimes

variable {dir : Direction}

theorem stepTimes_succ (times : ℕ) (z : Zipper α) :
    stepTimes dir (times + 1) z = (z.step dir).bind (stepTimes dir times) := rfl

theorem stepTimes_add (first second : ℕ) (z : Zipper α) :
    stepTimes dir (first + second) z = (stepTimes dir first z).bind (stepTimes dir second) := by
  induction first generalizing z with
  | zero => rw [Nat.zero_add, stepTimes, Option.bind_some]
  | succ first ih =>
      rw [Nat.add_right_comm, stepTimes_succ, stepTimes_succ, Option.bind_assoc]
      exact congrArg _ (funext ih)

end StepTimes

/-! ## Forward -/

section Next

theorem stepTimes_next_eq_getElem? (times : ℕ) (z : Zipper α) :
    stepTimes .next times z = z.positions[times]? := by
  induction times generalizing z with
  | zero =>
      cases hnext : z.next with
      | none =>
          rw [positions_of_next_eq_none hnext]
          rfl
      | some w =>
          rw [positions_of_next_eq_some hnext]
          rfl
  | succ times ih =>
      rw [stepTimes_succ, step]
      cases hnext : z.next with
      | none =>
          rw [positions_of_next_eq_none hnext]
          rfl
      | some w =>
          rw [positions_of_next_eq_some hnext, List.getElem?_cons_succ, ← ih]
          rfl

theorem forestCount_pending (path : List (Frame α)) : forestCount (pending path) = pathAhead path := by
  induction path with
  | nil => rfl
  | cons frame rest ih =>
      rw [pending, List.flatMap_cons, ← pending, forestCount_append, ih, pathAhead_cons]

variable [LawfulTree α]

theorem length_positions (z : Zipper α) : z.positions.length = z.ahead + 1 := by
  have hlength : z.nodes.length = z.positions.length := List.length_map focus
  rw [← hlength, nodes_eq_preorderStack, length_preorderStack, forestCount_cons,
    forestCount_pending, nodeCount_eq_forestCount, ahead]
  omega

/-- There are as many steps forward as places after the cursor. -/
theorem isSome_stepTimes_next_iff {times : ℕ} {z : Zipper α} :
    (stepTimes .next times z).isSome ↔ times ≤ z.ahead := by
  rw [stepTimes_next_eq_getElem?, isSome_getElem?, length_positions, Nat.lt_succ_iff]

omit [LawfulTree α] in
/-- Through the siblings from the focus on, the steps lead to where the parent is left. -/
theorem stepTimes_siblings {node parent : α} {others : List α} {rest : List (Frame α)}
    (hnodes : ∀ sibling ∈ node :: others, ∀ path,
      stepTimes .next (nodeCount sibling) ⟨sibling, path⟩ = skip .next ⟨sibling, path⟩)
    (lefts : List α) :
    stepTimes .next (forestCount (node :: others))
        ⟨node, ⟨parent, .ofList lefts, .ofList others⟩ :: rest⟩ =
      skip .next ⟨rebuild parent (lefts.reverse ++ node :: others), rest⟩ := by
  induction others generalizing node lefts with
  | nil =>
      rw [forestCount_cons, forestCount_nil, Nat.add_zero, hnodes node List.mem_cons_self,
        skip_next_last]
  | cons sibling others ih =>
      obtain ⟨hnode, hothers⟩ := List.forall_mem_cons.mp hnodes
      have hskip : skip .next
          ⟨node, ⟨parent, .ofList lefts, .ofList (sibling :: others)⟩ :: rest⟩ =
            some ⟨sibling, ⟨parent, .ofList (node :: lefts), .ofList others⟩ :: rest⟩ := rfl
      rw [forestCount_cons, stepTimes_add, hnode, hskip, Option.bind_some, ih hothers,
        List.reverse_cons, List.append_assoc, List.singleton_append]

/-- As many steps as a subtree has nodes lead out of it, wherever it stands. -/
theorem stepTimes_nodeCount (node : α) (path : List (Frame α)) :
    stepTimes .next (nodeCount node) ⟨node, path⟩ = skip .next ⟨node, path⟩ := by
  induction node using children_induction generalizing path with
  | hstep node ih =>
      rw [nodeCount_eq_forestCount, Nat.add_comm, stepTimes_succ, step, next]
      cases hchildren : children node with
      | nil =>
          rw [down_eq_none_iff.mpr hchildren]
          exact Option.bind_fun_some _
      | cons first others =>
          have hbranch : isBranch node :=
            isBranch_of_children_ne_nil (hchildren ▸ List.cons_ne_nil first others)
          rw [hchildren] at ih
          rw [down_of_children path hchildren, Option.bind_some, stepTimes_siblings ih,
            List.reverse_nil, List.nil_append, ← hchildren, LawfulTree.rebuild_children hbranch]

end Next

/-! ## Backward -/

section Prev

/-- What holds of a first child as soon as it holds of the parent holds of all cursors if it holds at
the root and after a sibling. -/
@[elab_as_elim]
theorem climb_induction {motive : Zipper α → Prop} (root : ∀ node, motive ⟨node, []⟩)
    (sibling : ∀ node parent sibling lefts rights rest,
      motive ⟨node, ⟨parent, .ofList (sibling :: lefts), .ofList rights⟩ :: rest⟩)
    (first : ∀ node parent rights rest, motive ⟨rebuild parent (node :: rights), rest⟩ →
      motive ⟨node, ⟨parent, .ofList [], .ofList rights⟩ :: rest⟩)
    (z : Zipper α) : motive z := by
  obtain ⟨node, path⟩ := z
  induction path generalizing node with
  | nil => exact root node
  | cons frame rest ih =>
      obtain ⟨parent, left, right⟩ := frame
      obtain ⟨lefts, rfl⟩ := left.exists_eq_ofList
      obtain ⟨rights, rfl⟩ := right.exists_eq_ofList
      cases lefts with
      | nil => exact first node parent rights rest (ih (rebuild parent (node :: rights)))
      | cons before lefts => exact sibling node parent before lefts rights rest

variable (node parent sibling : α) (lefts rights : List α) (rest : List (Frame α))

theorem skip_prev_of_sibling :
    skip .prev ⟨node, ⟨parent, .ofList (sibling :: lefts), .ofList rights⟩ :: rest⟩ =
      some ⟨sibling, ⟨parent, .ofList lefts, .ofList (node :: rights)⟩ :: rest⟩ := rfl

theorem skip_prev_of_first :
    skip .prev ⟨node, ⟨parent, .ofList [], .ofList rights⟩ :: rest⟩ =
      skip .prev ⟨rebuild parent (node :: rights), rest⟩ :=
  congrArg (fun filled => skip .prev (mk filled rest)) (fill_ofList parent node [] rights)

theorem stepTimes_prev_of_first (times : ℕ) :
    stepTimes .prev (times + 1) ⟨node, ⟨parent, .ofList [], .ofList rights⟩ :: rest⟩ =
      stepTimes .prev times ⟨rebuild parent (node :: rights), rest⟩ :=
  congrArg (fun filled => stepTimes .prev times (mk filled rest)) (fill_ofList parent node [] rights)

theorem route_first :
    route ⟨node, ⟨parent, .ofList [], .ofList rights⟩ :: rest⟩ =
      route ⟨rebuild parent (node :: rights), rest⟩ ++ [0] := route_cons ..

/-- The first places that steps backward lead to, up to the given number, are ancestors. -/
def Climbs (z : Zipper α) (steps : ℕ) : Prop :=
  ∀ times w, 0 < times → times ≤ steps → stepTimes .prev times z = some w → w.Above z

theorem climbs_zero (z : Zipper α) : Climbs z 0 := by
  intro times w hpos hle
  omega

variable {node parent rights rest} in
/-- From a first child the first step backward leads to the parent, and what is above the parent is
above the child. -/
theorem climbs_succ {steps : ℕ} (hclimbs : Climbs ⟨rebuild parent (node :: rights), rest⟩ steps) :
    Climbs ⟨node, ⟨parent, .ofList [], .ofList rights⟩ :: rest⟩ (steps + 1) := by
  intro times w hpos hle hsteps
  obtain ⟨times, rfl⟩ := Nat.exists_eq_add_one_of_ne_zero (Nat.pos_iff_ne_zero.mp hpos)
  rw [stepTimes_prev_of_first] at hsteps
  cases times with
  | zero =>
      cases hsteps
      exact ⟨0, [], route_first ..⟩
  | succ times =>
      obtain ⟨index, below, hroute⟩ :=
        hclimbs (times + 1) w times.succ_pos (Nat.le_of_succ_le_succ hle) hsteps
      refine ⟨index, below ++ [0], ?_⟩
      rw [route_first, hroute, List.append_assoc, List.cons_append]

/-- Steps backward come to ancestors until they come to the last place of the subtree where a skip
backward stops. -/
theorem exists_stepTimes_of_skip_prev {z w : Zipper α} (hskip : z.skip .prev = some w) :
    ∃ steps, Climbs z steps ∧ stepTimes .prev (steps + 1) z = some w.deepestRightmost := by
  induction z using climb_induction with
  | root node => cases hskip
  | sibling node parent sibling lefts rights rest =>
      cases hskip
      exact ⟨0, climbs_zero _, rfl⟩
  | first node parent rights rest ih =>
      rw [skip_prev_of_first] at hskip
      obtain ⟨steps, hclimbs, hsteps⟩ := ih hskip
      rw [← stepTimes_prev_of_first] at hsteps
      exact ⟨steps + 1, climbs_succ hclimbs, hsteps⟩

/-- Where a skip backward leads nowhere, steps backward come to ancestors only. -/
theorem climbs_of_skip_prev_eq_none {z : Zipper α} (hskip : z.skip .prev = none) (steps : ℕ) :
    Climbs z steps := by
  induction z using climb_induction generalizing steps with
  | root node =>
      intro times w hpos _ hsteps
      obtain ⟨times, rfl⟩ := Nat.exists_eq_add_one_of_ne_zero (Nat.pos_iff_ne_zero.mp hpos)
      cases hsteps
  | sibling node parent sibling lefts rights rest => cases hskip
  | first node parent rights rest ih =>
      rw [skip_prev_of_first] at hskip
      cases steps with
      | zero => exact climbs_zero _
      | succ steps => exact climbs_succ (ih hskip steps)

/-- Where a skip backward leads to comes before the cursor and is not above it. -/
theorem beyond_of_skip_prev {z w : Zipper α} (hskip : z.skip .prev = some w) :
    Beyond w.route z.route := by
  induction z using climb_induction with
  | root node => cases hskip
  | sibling node parent sibling lefts rights rest =>
      rw [skip_prev_of_sibling] at hskip
      cases hskip
      rw [route_cons sibling node, route_cons node node, beyond_append_singleton_iff]
      exact .inr ⟨lefts.length + 1, [], Nat.lt_succ_self _, rfl⟩
  | first node parent rights rest ih =>
      rw [skip_prev_of_first] at hskip
      rw [route_first]
      exact (ih hskip).append_right [0]

theorem not_above_of_skip_prev [LawfulTree α] {z w : Zipper α} (hskip : z.skip .prev = some w) :
    ¬w.deepestRightmost.Above z := by
  rintro ⟨index, below, hroute⟩
  have hbeyond : Beyond w.route z.route := beyond_of_skip_prev hskip
  rw [hroute, route_deepestRightmost, List.append_assoc] at hbeyond
  exact not_beyond_append _ hbeyond

end Prev

/-- Wherever a cursor stands, a skip forward leads exactly where as many steps lead as the subtree in
focus has nodes, none of them but the last one to nowhere.  A skip backward leads nowhere if steps
backward come to ancestors only.  Otherwise the last place below the one where it leads is the first
that they come to which is no ancestor. -/
theorem skip_eq_steps [LawfulTree α] (z : Zipper α) :
    z.skip .next = stepTimes .next (nodeCount z.focus) z ∧
    (∀ times < nodeCount z.focus, stepTimes .next times z ≠ none) ∧
    (z.skip .prev = none ↔
      ∀ times w, 0 < times → stepTimes .prev times z = some w → w.Above z) ∧
    (∀ w, z.skip .prev = some w → ∃ times, 0 < times ∧
      stepTimes .prev times z = some w.deepestRightmost ∧ ¬w.deepestRightmost.Above z ∧
      ∀ fewer v, 0 < fewer → fewer < times → stepTimes .prev fewer z = some v → v.Above z) := by
  refine ⟨(stepTimes_nodeCount z.focus z.path).symm, ?_, ⟨?_, ?_⟩, ?_⟩
  · intro times hless hnone
    have hsome : (stepTimes .next times z).isSome := by
      rw [isSome_stepTimes_next_iff, ahead]
      rw [nodeCount_eq_forestCount] at hless
      omega
    rw [hnone] at hsome
    cases hsome
  · intro hskip times w hpos hsteps
    exact climbs_of_skip_prev_eq_none hskip times times w hpos le_rfl hsteps
  · intro hall
    by_contra hsome
    obtain ⟨w, hskip⟩ := Option.ne_none_iff_exists'.mp hsome
    obtain ⟨steps, -, hsteps⟩ := exists_stepTimes_of_skip_prev hskip
    exact not_above_of_skip_prev hskip (hall (steps + 1) _ (Nat.succ_pos steps) hsteps)
  · intro w hskip
    obtain ⟨steps, hclimbs, hsteps⟩ := exists_stepTimes_of_skip_prev hskip
    refine ⟨steps + 1, Nat.succ_pos steps, hsteps, not_above_of_skip_prev hskip, ?_⟩
    intro fewer v hpos hless hfewer
    exact hclimbs fewer v hpos (Nat.le_of_lt_succ hless) hfewer

/-- In a pair that will be a block a list of one item is passed by two steps.  From the item a skip
backward stops at the list that was inserted before, at whose item steps backward arrive.  From the
key of the only member of an object steps backward come to the entry and to the object only. -/
theorem skip_eq_steps_beside_insertion :
    (stepTimes .next 2 (⟨.list [.int 1], [⟨.pair (.list [.int 1]) (.int 2),
          .ofList [.list [.int 7]], .ofList [.int 2]⟩]⟩ : Zipper Term) =
        some ⟨.int 2, [⟨.pair (.list [.int 1]) (.int 2),
          .ofList [.list [.int 1], .list [.int 7]], .ofList []⟩]⟩ ∧
      ∃ times, stepTimes .prev times (⟨.int 1, [⟨.list [.int 1], .ofList [], .ofList []⟩,
          ⟨.pair (.list [.int 1]) (.int 2), .ofList [.list [.int 7]], .ofList [.int 2]⟩]⟩ :
            Zipper Term) =
        some (deepestRightmost ⟨.list [.int 7], [⟨.pair (.list [.int 1]) (.int 2),
          .ofList [], .ofList [.list [.int 1], .int 2]⟩]⟩)) ∧
    (∀ times w, 0 < times →
      stepTimes .prev times (⟨.string "a", [⟨.entry "a" .null, .ofList [], .ofList [.null]⟩,
          ⟨.object ⟨[("a", .null)], by decide⟩, .ofList [], .ofList []⟩]⟩ : Zipper Document) =
        some w →
      w.Above ⟨.string "a", [⟨.entry "a" .null, .ofList [], .ofList [.null]⟩,
        ⟨.object ⟨[("a", .null)], by decide⟩, .ofList [], .ofList []⟩]⟩) := by
  obtain ⟨hnext, -⟩ := skip_eq_steps (⟨.list [.int 1], [⟨.pair (.list [.int 1]) (.int 2),
    .ofList [.list [.int 7]], .ofList [.int 2]⟩]⟩ : Zipper Term)
  obtain ⟨-, -, -, hprev⟩ := skip_eq_steps (⟨.int 1, [⟨.list [.int 1], .ofList [], .ofList []⟩,
    ⟨.pair (.list [.int 1]) (.int 2), .ofList [.list [.int 7]], .ofList [.int 2]⟩]⟩ :
      Zipper Term)
  obtain ⟨times, -, hsteps, -, -⟩ := hprev _ rfl
  exact ⟨⟨hnext.symm, times, hsteps⟩, (skip_eq_steps _).2.2.1.mp rfl⟩

end TreeCursor.Zipper
