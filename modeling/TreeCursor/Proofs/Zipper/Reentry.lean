import Mathlib.Logic.Function.Iterate
import TreeCursor.Proofs.Tree.Shape
import TreeCursor.Proofs.Zipper.Inverse

/-!
# Edits after going up and coming back

On its way up a cursor rebuilds the parent over the siblings as they are by then, and on its way
back it keeps the parent so rebuilt.  An edit that comes after is folded into a parent that has
been rebuilt once more than if the cursor had stayed.  A branch rebuilt twice is what it is
rebuilt once, with two exceptions: a pair over other than two children and an object over nodes
that cannot be its members lose their shapes, and do not get them back.
-/

namespace TreeCursor.Zipper

open TreeCursor.Tree

variable {α : Type*}

/-- The children that the parent would be rebuilt over, with the focus among them. -/
def siblings (z : Zipper α) : List α :=
  z.lefts ++ z.focus :: z.rights

theorem siblings_child (node parent : α) (lefts rights : List α) (rest : List (Frame α)) :
    siblings ⟨node, ⟨parent, .ofList lefts, .ofList rights⟩ :: rest⟩ =
      lefts.reverse ++ node :: rights := by
  rw [siblings, lefts_child, rights_child]

/-- To the right a cursor comes past all siblings before a node. -/
theorem iterate_right (parent node : α) (after : List α) (rest : List (Frame α))
    {before others : List α} {first : α} (hnodes : before ++ node :: after = first :: others)
    (lefts : List α) :
    (·.bind right)^[before.length]
        (some ⟨first, ⟨parent, .ofList lefts, .ofList others⟩ :: rest⟩) =
      some ⟨node, ⟨parent, .ofList (before.reverse ++ lefts), .ofList after⟩ :: rest⟩ := by
  induction before generalizing first others lefts with
  | nil =>
      cases hnodes
      rfl
  | cons sibling before ih =>
      rw [List.cons_append, List.cons.injEq] at hnodes
      obtain ⟨rfl, rfl⟩ := hnodes
      obtain ⟨next, others, hothers⟩ : ∃ next others, before ++ node :: after = next :: others :=
        List.exists_cons_of_ne_nil (List.append_ne_nil_of_right_ne_nil before (by simp))
      rw [List.length_cons, Function.iterate_succ_apply, hothers, Option.bind_some, right_cons,
        ih hothers, List.reverse_cons, List.append_assoc, List.singleton_append]

variable [Tree α]

/-- The cursor once it has gone up and has come back to its index. -/
def reentered (z : Zipper α) : Option (Zipper α) :=
  (·.bind right)^[z.index] (z.up.bind down)

/-- An edit made at once, and made when the cursor has gone up and has come back. -/
structure EditedOnReturn (edit : Edit α) (z once twice : Zipper α) : Prop where
  apply_eq_ok : edit.apply z = .ok once
  exists_back : ∃ back, z.reentered = some back ∧ SamePlace z back ∧ edit.apply back = .ok twice

variable [LawfulTree α]

section Child

variable {node parent : α} {lefts rights : List α} {rest : List (Frame α)}

theorem reentered_child (hbranch : isBranch parent) :
    reentered ⟨node, ⟨parent, .ofList lefts, .ofList rights⟩ :: rest⟩ =
      some ⟨node, ⟨rebuild parent (lefts.reverse ++ node :: rights), .ofList lefts,
        .ofList rights⟩ :: rest⟩ := by
  have hchildren : children (rebuild parent (lefts.reverse ++ node :: rights)) =
      lefts.reverse ++ node :: rights := LawfulTree.children_rebuild hbranch _
  obtain ⟨first, others, hnodes⟩ :
      ∃ first others, lefts.reverse ++ node :: rights = first :: others :=
    List.exists_cons_of_ne_nil (List.append_ne_nil_of_right_ne_nil _ (by simp))
  have hback := iterate_right (rebuild parent (lefts.reverse ++ node :: rights)) node rights rest
    hnodes []
  rw [List.length_reverse, List.reverse_reverse, List.append_nil,
    ← down_of_children rest (hchildren.trans hnodes)] at hback
  rw [reentered, index_child, up_child]
  exact hback

omit [LawfulTree α] in
/-- A replacement and insertions beside the focus do not depend on the parent. -/
theorem exists_apply_beside {x : α} {edit : Edit α}
    (hedit : edit ∈ [.replace x, .insertLeft x, .insertRight x]) (node : α) (lefts rights : List α)
    (rest : List (Frame α)) :
    ∃ node' lefts' rights', ∀ parent,
      edit.apply ⟨node, ⟨parent, .ofList lefts, .ofList rights⟩ :: rest⟩ =
        .ok ⟨node', ⟨parent, .ofList lefts', .ofList rights'⟩ :: rest⟩ := by
  rw [List.mem_cons, List.mem_cons, List.mem_singleton] at hedit
  obtain rfl | rfl | rfl := hedit
  · exact ⟨x, lefts, rights, fun _ => rfl⟩
  · exact ⟨node, x :: lefts, rights, fun _ => rfl⟩
  · exact ⟨node, lefts, x :: rights, fun _ => rfl⟩

/-- Different nodes in the same place make different trees. -/
theorem root_inj {path : List (Frame α)} {node node' : α}
    (hsound : Sound ⟨node, path⟩) : root ⟨node, path⟩ = root ⟨node', path⟩ ↔ node = node' := by
  constructor
  · intro hroot
    have hnode : nodeAt (root ⟨node, path⟩) (route ⟨node, path⟩) = some node := nodeAt_route hsound
    have hnode' : nodeAt (root ⟨node', path⟩) (route ⟨node, path⟩) = some node' :=
      nodeAt_route (z := ⟨node', path⟩) hsound
    rw [hroot, hnode'] at hnode
    exact (Option.some.inj hnode).symm
  · rintro rfl
    rfl

end Child

/-- Made on return, such an edit comes to the same if the parent rebuilt twice is the parent rebuilt
once. -/
theorem exists_editedOnReturn {z : Zipper α} {frame : Frame α} {rest : List (Frame α)}
    (hsound : Sound z) (hpath : z.path = frame :: rest) {x : α} {edit : Edit α}
    (hedit : edit ∈ [.replace x, .insertLeft x, .insertRight x]) :
    ∃ once twice, EditedOnReturn edit z once twice ∧
      (twice.root = once.root ↔
        rebuild (rebuild frame.parent z.siblings) once.siblings =
          rebuild frame.parent once.siblings) := by
  obtain ⟨node, path⟩ := z
  obtain rfl : path = frame :: rest := hpath
  obtain ⟨parent, left, right⟩ := frame
  obtain ⟨lefts, rfl⟩ := left.exists_eq_ofList
  obtain ⟨rights, rfl⟩ := right.exists_eq_ofList
  obtain ⟨hbranch, hrest⟩ := sound_cons.mp hsound
  obtain ⟨node', lefts', rights', happly⟩ := exists_apply_beside hedit node lefts rights rest
  have hfilled : rebuild (rebuild parent (lefts.reverse ++ node :: rights))
      (lefts.reverse ++ node :: rights) = rebuild parent (lefts.reverse ++ node :: rights) := by
    have hparent := LawfulTree.rebuild_children
      (LawfulTree.isBranch_rebuild parent (lefts.reverse ++ node :: rights))
    rwa [LawfulTree.children_rebuild hbranch] at hparent
  refine ⟨_, _, ⟨happly parent, _, reentered_child hbranch, ⟨rfl, rfl, ?_⟩, happly _⟩, ?_⟩
  · rw [root_child, root_child, hfilled]
  · rw [root_child, root_child, siblings_child, siblings_child]
    exact root_inj hrest

/-- A branch rebuilt twice is what it is rebuilt once, unless it is a pair or an object that loses
its shape the first time and would have it the second time.  So it makes no difference to the tree
whether a cursor has gone up and come back before a replacement or an insertion beside it,
whatever its history, unless the parent forgets its shape on the way. -/
theorem rebuild_forgets_shape :
    (∀ (term : Term) (before after : List Term), isBranch term →
      (rebuild (rebuild term before) after = rebuild term after ↔
        ¬term.ForgetsPair before after)) ∧
    (∀ (document : Document) (before after : List Document), isBranch document →
      (rebuild (rebuild document before) after = rebuild document after ↔
        ¬document.ForgetsObject before after)) ∧
    (∀ (tree : Term) (z : Zipper Term) frame rest, Reachable tree z → z.path = frame :: rest →
      ∀ x, ∀ edit ∈ [Edit.replace x, .insertLeft x, .insertRight x],
        ∃ once twice, EditedOnReturn edit z once twice ∧
          (twice.root = once.root ↔ ¬frame.parent.ForgetsPair z.siblings once.siblings)) ∧
    (∀ (tree : Document) (z : Zipper Document) frame rest, Reachable tree z →
      z.path = frame :: rest →
      ∀ x, ∀ edit ∈ [Edit.replace x, .insertLeft x, .insertRight x],
        ∃ once twice, EditedOnReturn edit z once twice ∧
          (twice.root = once.root ↔ ¬frame.parent.ForgetsObject z.siblings once.siblings)) := by
  refine ⟨?_, ?_, ?_, ?_⟩
  · intro term before after hbranch
    exact Term.rebuild_rebuild_eq_iff hbranch before after
  · intro document before after hbranch
    exact Document.rebuild_rebuild_eq_iff hbranch before after
  · intro tree z frame rest hreachable hpath x edit hedit
    have hsound : Sound z := sound_of_reachable hreachable
    have hbranch : isBranch frame.parent := hsound frame (hpath ▸ List.mem_cons_self)
    obtain ⟨once, twice, hedited, hroot⟩ := exists_editedOnReturn hsound hpath hedit
    exact ⟨once, twice, hedited, hroot.trans (Term.rebuild_rebuild_eq_iff hbranch _ _)⟩
  · intro tree z frame rest hreachable hpath x edit hedit
    have hsound : Sound z := sound_of_reachable hreachable
    have hbranch : isBranch frame.parent := hsound frame (hpath ▸ List.mem_cons_self)
    obtain ⟨once, twice, hedited, hroot⟩ := exists_editedOnReturn hsound hpath hedit
    exact ⟨once, twice, hedited, hroot.trans (Document.rebuild_rebuild_eq_iff hbranch _ _)⟩

/-- Of a pair one child is left, and a new one is inserted beside it.  In place of the only entry
of an object stands a text, beside which another node makes no difference, but which gives way to
an entry again. -/
theorem rebuild_forgets_shape_of_pair_and_object :
    (isBranch (Term.pair (.int 1) (.int 2)) ∧
      rebuild (rebuild (Term.pair (.int 1) (.int 2)) [.int 1]) [.int 1, .int 3] ≠
        rebuild (Term.pair (.int 1) (.int 2)) [.int 1, .int 3]) ∧
    (isBranch (Document.object ⟨[("a", .null)], by decide⟩) ∧
      rebuild (rebuild (Document.object ⟨[("a", .null)], by decide⟩) [.entry "b" .null]) [] =
        rebuild (Document.object ⟨[("a", .null)], by decide⟩) []) ∧
    (Reachable (Term.pair (.int 1) (.int 2))
        ⟨.int 1, [⟨.pair (.int 1) (.int 2), .ofList [], .ofList []⟩]⟩ ∧
      ∃ once twice : Zipper Term,
        EditedOnReturn (.insertRight (.int 3))
          ⟨.int 1, [⟨.pair (.int 1) (.int 2), .ofList [], .ofList []⟩]⟩ once twice ∧
        twice.root ≠ once.root) ∧
    Reachable (Document.object ⟨[("a", .null)], by decide⟩)
        ⟨.string "c", [⟨.object ⟨[("a", .null)], by decide⟩, .ofList [], .ofList []⟩]⟩ ∧
      (∃ once twice : Zipper Document,
        EditedOnReturn (.insertLeft .null)
          ⟨.string "c", [⟨.object ⟨[("a", .null)], by decide⟩, .ofList [], .ofList []⟩]⟩ once twice ∧
        twice.root = once.root) ∧
      ∃ once twice : Zipper Document,
        EditedOnReturn (.replace (.entry "b" .null))
          ⟨.string "c", [⟨.object ⟨[("a", .null)], by decide⟩, .ofList [], .ofList []⟩]⟩ once twice ∧
        twice.root ≠ once.root := by
  obtain ⟨hterms, hdocuments, honTerms, honDocuments⟩ := rebuild_forgets_shape
  have hterm : Reachable (Term.pair (.int 1) (.int 2))
      ⟨.int 1, [⟨.pair (.int 1) (.int 2), .ofList [], .ofList []⟩]⟩ :=
    .edit .remove (.move (.move .right) (.move (.move .down) .start rfl) rfl) (by cbv)
  have hdocument : Reachable (Document.object ⟨[("a", .null)], by decide⟩)
      ⟨.string "c", [⟨.object ⟨[("a", .null)], by decide⟩, .ofList [], .ofList []⟩]⟩ :=
    .edit (.replace (.string "c")) (.move (.move .down) .start rfl) rfl
  refine ⟨⟨rfl, ?_⟩, ⟨rfl, ?_⟩, ⟨hterm, ?_⟩, hdocument, ?_, ?_⟩
  · exact mt (hterms _ [.int 1] [.int 1, .int 3] rfl).mp (not_not_intro ⟨rfl, by decide, rfl⟩)
  · exact (hdocuments _ [.entry "b" .null] [] rfl).mpr fun h => absurd h.2.1 (by decide)
  · obtain ⟨once, twice, hedited, hroot⟩ :=
      honTerms _ _ _ _ hterm rfl (.int 3) (.insertRight (.int 3)) (by simp)
    refine ⟨once, twice, hedited, mt hroot.mp (not_not_intro ?_)⟩
    cases hedited.apply_eq_ok
    exact ⟨rfl, by decide, rfl⟩
  · obtain ⟨once, twice, hedited, hroot⟩ :=
      honDocuments _ _ _ _ hdocument rfl .null (.insertLeft .null) (by simp)
    refine ⟨once, twice, hedited, hroot.mpr ?_⟩
    cases hedited.apply_eq_ok
    exact fun h => h.2.2 (by decide)
  · obtain ⟨once, twice, hedited, hroot⟩ :=
      honDocuments _ _ _ _ hdocument rfl (.entry "b" .null) (.replace (.entry "b" .null)) (by simp)
    refine ⟨once, twice, hedited, mt hroot.mp (not_not_intro ?_)⟩
    cases hedited.apply_eq_ok
    exact ⟨rfl, by decide, by decide⟩

end TreeCursor.Zipper
