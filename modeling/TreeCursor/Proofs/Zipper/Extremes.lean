import Mathlib.Computability.StateTransition
import TreeCursor.Proofs.Zipper.Contents
import TreeCursor.Proofs.Zipper.Reentry

/-!
# The first and the last sibling

The jump to the first sibling is the step to the left, taken until there is none, and the jump to
the last one is the step to the right.  Both come to the very same cursors, whatever edits are
pending among the siblings.  No step changes which siblings there are and in which order, so that a
jump does not either, and where a jump leads does not depend on the sibling that it starts from.
-/

namespace TreeCursor.Zipper

open StateTransition (eval mem_eval reaches_eval)

variable {α : Type*}

/-! ## Jumps as repeated steps -/

theorem leftmost_mem_eval (z : Zipper α) : z.leftmost ∈ eval left z := by
  cases z using placeCases with
  | root node => exact mem_eval.mpr ⟨.refl, rfl⟩
  | child node parent lefts rights rest =>
      induction lefts generalizing node rights with
      | nil => exact mem_eval.mpr ⟨.refl, rfl⟩
      | cons sibling lefts ih =>
          have hleft := left_cons node parent sibling lefts rights rest
          rw [leftmost_cons, reaches_eval (.single hleft)]
          exact ih sibling (node :: rights)

theorem rightmost_mem_eval (z : Zipper α) : z.rightmost ∈ eval right z := by
  cases z using placeCases with
  | root node => exact mem_eval.mpr ⟨.refl, rfl⟩
  | child node parent lefts rights rest =>
      induction rights generalizing node lefts with
      | nil => exact mem_eval.mpr ⟨.refl, rfl⟩
      | cons sibling rights ih =>
          have hright := right_cons node parent sibling lefts rights rest
          rw [rightmost_cons, reaches_eval (.single hright)]
          exact ih sibling (node :: lefts)

/-! ## What steps among siblings keep -/

theorem eq_of_reaches {β : Type*} {f : Zipper α → β} {step : Zipper α → Option (Zipper α)}
    (hstep : ∀ z w, step z = some w → f w = f z) {z w : Zipper α}
    (hreaches : StateTransition.Reaches step z w) : f w = f z := by
  induction hreaches with
  | refl => rfl
  | tail _ hlast ih => exact (hstep _ _ hlast).trans ih

theorem siblings_of_left (z w : Zipper α) (hleft : z.left = some w) : siblings w = siblings z := by
  obtain ⟨node, parent, sibling, lefts, rights, rest, rfl, rfl⟩ := exists_of_left hleft
  rw [siblings_child, siblings_child, List.reverse_cons, List.append_assoc, List.singleton_append]

theorem siblings_of_right (z w : Zipper α) (hright : z.right = some w) :
    siblings w = siblings z := by
  obtain ⟨node, parent, sibling, lefts, rights, rest, rfl, rfl⟩ := exists_of_right hright
  rw [siblings_child, siblings_child, List.reverse_cons, List.append_assoc, List.singleton_append]

theorem leftmost_of_left (z w : Zipper α) (hleft : z.left = some w) : w.leftmost = z.leftmost := by
  obtain ⟨node, parent, sibling, lefts, rights, rest, rfl, rfl⟩ := exists_of_left hleft
  exact (leftmost_cons ..).symm

theorem leftmost_of_right (z w : Zipper α) (hright : z.right = some w) :
    w.leftmost = z.leftmost := by
  obtain ⟨node, parent, sibling, lefts, rights, rest, rfl, rfl⟩ := exists_of_right hright
  exact leftmost_cons ..

theorem rightmost_of_left (z w : Zipper α) (hleft : z.left = some w) :
    w.rightmost = z.rightmost := by
  obtain ⟨node, parent, sibling, lefts, rights, rest, rfl, rfl⟩ := exists_of_left hleft
  exact rightmost_cons ..

theorem rightmost_of_right (z w : Zipper α) (hright : z.right = some w) :
    w.rightmost = z.rightmost := by
  obtain ⟨node, parent, sibling, lefts, rights, rest, rfl, rfl⟩ := exists_of_right hright
  exact (rightmost_cons ..).symm

/-- What a step to the left keeps is kept by the jump to the first sibling. -/
theorem eq_leftmost {β : Type*} {f : Zipper α → β} (hstep : ∀ z w, z.left = some w → f w = f z)
    (z : Zipper α) : f z.leftmost = f z :=
  eq_of_reaches hstep (mem_eval.mp (leftmost_mem_eval z)).1

/-- What a step to the right keeps is kept by the jump to the last sibling. -/
theorem eq_rightmost {β : Type*} {f : Zipper α → β} (hstep : ∀ z w, z.right = some w → f w = f z)
    (z : Zipper α) : f z.rightmost = f z :=
  eq_of_reaches hstep (mem_eval.mp (rightmost_mem_eval z)).1

theorem index_leftmost (z : Zipper α) : z.leftmost.index = 0 := by
  have hfirst : z.leftmost.left = none := (mem_eval.mp (leftmost_mem_eval z)).2
  generalize z.leftmost = w at hfirst
  cases w using placeCases with
  | root node => rfl
  | child node parent lefts rights rest =>
      cases lefts with
      | nil => rfl
      | cons sibling lefts => cases hfirst

theorem index_rightmost (z : Zipper α) : z.rightmost.index + 1 = (siblings z).length := by
  rw [← eq_rightmost siblings_of_right z]
  have hlast : z.rightmost.right = none := (mem_eval.mp (rightmost_mem_eval z)).2
  generalize z.rightmost = w at hlast
  cases w using placeCases with
  | root node => rfl
  | child node parent lefts rights rest =>
      cases rights with
      | nil => simp [siblings_child, index]
      | cons sibling rights => cases hlast

/-- The jumps come to what single steps come to when they are taken until there is none, the very
same cursors, from which all that is done later comes to the same.  All siblings are kept, and from
any of them the jumps lead to the same place. -/
theorem extremes_eq_repeated_steps [Tree α] (z : Zipper α) :
    (eval left z = .some z.leftmost ∧ eval right z = .some z.rightmost) ∧
    (∀ operations : List (Operation α),
      (eval left z).map (Operation.run operations) = .some (Operation.run operations z.leftmost) ∧
      (eval right z).map (Operation.run operations) =
        .some (Operation.run operations z.rightmost)) ∧
    (siblings z.leftmost = siblings z ∧ z.leftmost.index = 0) ∧
    (siblings z.rightmost = siblings z ∧ z.rightmost.index + 1 = (siblings z).length) ∧
    (z.rightmost.leftmost = z.leftmost ∧ z.leftmost.rightmost = z.rightmost) ∧
    z.leftmost.leftmost = z.leftmost ∧ z.rightmost.rightmost = z.rightmost := by
  have hleft : eval left z = .some z.leftmost := Part.eq_some_iff.mpr (leftmost_mem_eval z)
  have hright : eval right z = .some z.rightmost := Part.eq_some_iff.mpr (rightmost_mem_eval z)
  refine ⟨⟨hleft, hright⟩, fun operations => ?_, ?_, ?_, ?_, ?_⟩
  · rw [hleft, hright, Part.map_some, Part.map_some]
    exact ⟨rfl, rfl⟩
  · exact ⟨eq_leftmost siblings_of_left z, index_leftmost z⟩
  · exact ⟨eq_rightmost siblings_of_right z, index_rightmost z⟩
  · exact ⟨eq_rightmost leftmost_of_right z, eq_leftmost rightmost_of_left z⟩
  · exact ⟨eq_leftmost leftmost_of_left z, eq_rightmost rightmost_of_right z⟩

end TreeCursor.Zipper
