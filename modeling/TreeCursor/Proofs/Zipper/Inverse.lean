import TreeCursor.Proofs.Zipper.Editing
import TreeCursor.Proofs.Zipper.Search

/-!
# Steps back and forth

A step forward and a step backward undo each other.  Whichever comes first, the second one leads back
to the same place of the same tree, and only the parents on the way may be other ones by then, since
they have been rebuilt.  Where no edits are pending a cursor is determined by its tree and its place,
so that not even the parents are.
-/

namespace TreeCursor.Zipper

open TreeCursor.Tree

variable {α : Type*} [Tree α] [LawfulTree α]

/-- Two cursors at the same node of the same tree. -/
structure SamePlace (z w : Zipper α) : Prop where
  route : w.route = z.route
  focus : w.focus = z.focus
  root : w.root = z.root

theorem samePlace_of_reaches {z w : Zipper α} (hsound : Sound z) (hreaches : Reaches z w)
    (hroute : w.route = z.route) : SamePlace z w := by
  have hfocus : nodeAt z.root w.route = some w.focus := nodeAt_route_of_reaches hsound hreaches
  rw [hroute, nodeAt_route hsound, Option.some.injEq] at hfocus
  exact ⟨hroute, hfocus.symm, root_of_reaches hreaches⟩

/-- Without pending edits there is one cursor only at a place of a tree. -/
theorem eq_of_fresh {z w : Zipper α} (hz : Fresh z.focus z.path) (hw : Fresh w.focus w.path)
    (hsame : SamePlace z w) : w = z := by
  obtain ⟨hroute, -, hroot⟩ := hsame
  obtain ⟨node, path⟩ := z
  obtain ⟨node', path'⟩ := w
  induction path generalizing node node' path' with
  | nil =>
      obtain rfl : path' = [] := route_eq_nil_iff.mp hroute
      obtain rfl : node' = node := hroot
      rfl
  | cons frame rest ih =>
      cases path' with
      | nil => simp [route] at hroute
      | cons frame' rest' =>
          rw [root_cons, root_cons, fill_of_fresh hz, fill_of_fresh hw] at hroot
          obtain ⟨parent, left, right⟩ := frame
          obtain ⟨lefts, rfl⟩ := left.exists_eq_ofList
          obtain ⟨rights, rfl⟩ := right.exists_eq_ofList
          obtain ⟨parent', left', right'⟩ := frame'
          obtain ⟨lefts', rfl⟩ := left'.exists_eq_ofList
          obtain ⟨rights', rfl⟩ := right'.exists_eq_ofList
          obtain ⟨-, hchildren, hrest⟩ := fresh_cons.mp hz
          obtain ⟨-, hchildren', hrest'⟩ := fresh_cons.mp hw
          rw [route_cons node parent, route_cons node' parent'] at hroute
          obtain ⟨hroute, hlength⟩ := List.append_inj' hroute rfl
          -- the parents are the same by induction, and so are their children around the same index
          cases ih parent hrest parent' rest' hrest' hroute hroot
          have hlength' : lefts'.reverse.length = lefts.reverse.length := by
            rw [List.length_reverse, List.length_reverse]
            exact List.singleton_inj.mp hlength
          obtain ⟨hlefts, hnodes⟩ :=
            List.append_inj (hchildren'.symm.trans hchildren) hlength'
          obtain rfl : lefts' = lefts := List.reverse_inj.mp hlefts
          cases hnodes
          rfl

/-- The step backward after a step forward leads to the place where it was taken. -/
theorem exists_prev_of_next {z w : Zipper α} (hsound : Sound z) (hnext : z.next = some w) :
    ∃ v, w.prev = some v ∧ v.route = z.route := by
  have hroot : w.root = z.root := root_of_reaches (reaches_next hnext)
  have hsound' : Sound w := sound_of_reaches hsound (reaches_next hnext)
  have hplace : (nodeAt w.root z.route).isSome := hroot ▸ isSome_nodeAt_of_reaches hsound .refl
  obtain ⟨v, hprev, hroute | hbefore⟩ :=
    (exists_prev_iff_lt hsound' hplace).mpr (route_lt_of_next hsound hnext)
  · exact ⟨v, hprev, hroute.symm⟩
  · -- no place comes between a place and the next one
    have hbetween : (nodeAt z.root v.route).isSome :=
      hroot ▸ isSome_nodeAt_of_reaches hsound' (reaches_prev hprev)
    have hless : v.route < w.route := route_lt_of_prev hsound' hprev
    obtain ⟨w', hw', hafter⟩ := (exists_next_iff_lt hsound hbetween).mpr hbefore
    obtain rfl : w = w' := Option.some.inj (hnext.symm.trans hw')
    rcases hafter with hroute | hafter
    · exact absurd hless (hroute ▸ lt_irrefl v.route)
    · exact absurd hless hafter.asymm

theorem next_eq_none_iff {z : Zipper α} (hsound : Sound z) :
    z.next = none ↔ (routes z.root).getLast? = some z.route := by
  rw [getLast?_routes_eq_some_iff]
  constructor
  · intro hnext
    refine ⟨mem_routes.mpr (isSome_nodeAt_of_reaches hsound .refl), ?_⟩
    intro place hplace hless
    obtain ⟨w, hw, -⟩ := (exists_next_iff_lt hsound (mem_routes.mp hplace)).mpr hless
    cases hnext.symm.trans hw
  · rintro ⟨-, hlast⟩
    by_contra hsome
    obtain ⟨w, hnext⟩ := Option.ne_none_iff_exists'.mp hsome
    exact hlast w.route
      (mem_routes.mpr (isSome_nodeAt_of_reaches hsound (reaches_next hnext)))
      (route_lt_of_next hsound hnext)

theorem samePlace_of_steps {tree : α} {z v : Zipper α} (hreachable : Reachable tree z)
    (hreaches : Reaches z v) (hroute : v.route = z.route) :
    SamePlace z v ∧ (Walked tree z → v = z) := by
  have hsame : SamePlace z v :=
    samePlace_of_reaches (sound_of_reachable hreachable) hreaches hroute
  refine ⟨hsame, ?_⟩
  intro hwalked
  have hfresh : Fresh z.focus z.path := fresh_of_walked hwalked
  exact eq_of_fresh hfresh (fresh_of_reaches hfresh hreaches) hsame

/-- Whatever the history of a cursor, a step forward and a step backward, or the other way round, lead
back to its place, and to the very same cursor if only moves led to it.  Backward there is no step
from the root only, and forward from the last place in pre-order only. -/
theorem next_prev_cancel {tree : α} {z : Zipper α} (hreachable : Reachable tree z) :
    (∀ w, z.next = some w →
      ∃ v, w.prev = some v ∧ SamePlace z v ∧ (Walked tree z → v = z)) ∧
    (z.isRoot = false →
      ∃ w v, z.prev = some w ∧ w.next = some v ∧ SamePlace z v ∧ (Walked tree z → v = z)) ∧
    (z.prev = none ↔ z.isRoot) ∧
    (z.next = none ↔ (routes z.root).getLast? = some z.route) := by
  have hsound : Sound z := sound_of_reachable hreachable
  have hprevNone : z.prev = none ↔ z.isRoot := by
    rw [prev_eq_none_iff, route_eq_nil_iff, isRoot, List.isEmpty_iff]
  refine ⟨?_, ?_, hprevNone, next_eq_none_iff hsound⟩
  · intro w hnext
    obtain ⟨v, hprev, hroute⟩ := exists_prev_of_next hsound hnext
    have hreaches : Reaches z v := (reaches_next hnext).trans (reaches_prev hprev)
    exact ⟨v, hprev, samePlace_of_steps hreachable hreaches hroute⟩
  · intro hroot
    have hsome : z.prev ≠ none := by
      rw [ne_eq, hprevNone, hroot]
      exact Bool.false_ne_true
    obtain ⟨w, hprev⟩ := Option.ne_none_iff_exists'.mp hsome
    obtain ⟨v, hnext, hroute⟩ := exists_next_of_prev hsound hprev
    have hreaches : Reaches z v := (reaches_prev hprev).trans (reaches_next hnext)
    exact ⟨w, v, hprev, hnext, samePlace_of_steps hreachable hreaches hroute⟩

/-- From the last place of a list that has been given a sibling before it a step forward rebuilds the
list, and the step backward leads to the same place below the rebuilt one.  In an object that has only
been walked through the two steps lead back to the cursor. -/
theorem next_prev_cancel_beside_insertion :
    (Reachable (Term.list [.list [.int 1], .int 2])
        ⟨.int 1, [⟨.list [.int 1], .ofList [.int 7], .ofList []⟩,
          ⟨.list [.list [.int 1], .int 2], .ofList [], .ofList [.int 2]⟩]⟩ ∧
      ∃ v : Zipper Term,
        prev ⟨.int 2, [⟨.list [.list [.int 1], .int 2], .ofList [.list [.int 7, .int 1]],
          .ofList []⟩]⟩ = some v ∧
        v.route = [0, 1] ∧ v.focus = .int 1 ∧ v.root = .list [.list [.int 7, .int 1], .int 2]) ∧
    (Walked (Document.object ⟨[("a", .null)], by decide⟩)
        ⟨.entry "a" .null, [⟨.object ⟨[("a", .null)], by decide⟩, .ofList [], .ofList []⟩]⟩ ∧
      ∃ w : Zipper Document, prev ⟨.entry "a" .null,
          [⟨.object ⟨[("a", .null)], by decide⟩, .ofList [], .ofList []⟩]⟩ = some w ∧
        w.next = some ⟨.entry "a" .null,
          [⟨.object ⟨[("a", .null)], by decide⟩, .ofList [], .ofList []⟩]⟩) := by
  have hterm : Reachable (Term.list [.list [.int 1], .int 2])
      ⟨.int 1, [⟨.list [.int 1], .ofList [.int 7], .ofList []⟩,
        ⟨.list [.list [.int 1], .int 2], .ofList [], .ofList [.int 2]⟩]⟩ :=
    .edit (.insertLeft (.int 7)) (.move (.move .down) (.move (.move .down) .start rfl) rfl) rfl
  have hdocument : Walked (Document.object ⟨[("a", .null)], by decide⟩)
      ⟨.entry "a" .null, [⟨.object ⟨[("a", .null)], by decide⟩, .ofList [], .ofList []⟩]⟩ :=
    .move (.move .down) .start rfl
  obtain ⟨v, hprev, hsame, -⟩ := (next_prev_cancel hterm).1 _ rfl
  obtain ⟨w, v', hprev', hnext, -, hwalked⟩ := (next_prev_cancel hdocument.reachable).2.1 rfl
  obtain rfl := hwalked hdocument
  exact ⟨⟨hterm, v, hprev, hsame.route, hsame.focus, hsame.root⟩, hdocument, w, hprev', hnext⟩

end TreeCursor.Zipper
