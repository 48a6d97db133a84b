import Mathlib.Data.List.Infix
import TreeCursor.Proofs.Script.Routes
import TreeCursor.Proofs.Tree.Shape
import TreeCursor.Proofs.Zipper.Editing

/-!
# Replacements that commute

Two nodes of a tree, neither of them below the other, may be replaced in either order.  Only the
nodes above both of them see both edits, and each order rebuilds these from other ones in between.
That makes no difference where the ones in between have the same shape, as they always have in
terms.  An object may become an array in between, in one of the two orders only, and stays one
from then on, so that documents come out the same up to objects read as arrays of their entries.
-/

namespace TreeCursor

/-! ## Edits at routes that part -/

namespace Tree

variable {α : Type*} [Tree α]

/-- Up to a reading of trees, two nodes become the same over the same children. -/
def RebuiltAlike {β : Type*} (read : α → β) (node other : α) : Prop :=
  ∀ nodes others : List α, nodes.map read = others.map read →
    read (rebuild node nodes) = read (rebuild other others)

omit [Tree α] in
/-- Two changes of an item may be made in either order if they may be for this item. -/
theorem map_modify_modify_comm {β : Type*} {read : α → β} {f g : α → α} {nodes : List α} {index : ℕ}
    {node : α} (hnode : nodes[index]? = some node) (hcomm : read (g (f node)) = read (f (g node))) :
    ((nodes.modify index f).modify index g).map read =
      ((nodes.modify index g).modify index f).map read := by
  apply List.ext_getElem?
  intro other
  by_cases hother : index = other
  · subst hother
    simp [hnode, hcomm]
  · simp [hother]

variable [LawfulTree α]

theorem editAt_editAt_cons {tree : α} (hbranch : isBranch tree) (f g : α → α) (index index' : ℕ)
    (first second : List ℕ) :
    editAt g (index' :: second) (editAt f (index :: first) tree) =
      rebuild (editAt f (index :: first) tree)
        (((children tree).modify index (editAt f first)).modify index' (editAt g second)) := by
  rw [← children_editAt_cons hbranch]
  rfl

/-- Edits commute if every node above both of them, which one edit and the other rebuild each over
as many children as it has, then becomes the same over the same children. -/
theorem read_editAt_comm {β : Type*} {read : α → β} {f g : α → α} {tree : α}
    {first second : List ℕ} (hfirst : (nodeAt tree first).isSome) (hnot : ¬first <+: second)
    (hnot' : ¬second <+: first)
    (halike : ∀ above node before before', above <+: first → above <+: second →
      isBranch node → before.length = (children node).length →
      before'.length = (children node).length → nodeAt tree above = some node →
      nodeAt (editAt f first tree) above = some (rebuild node before) →
      nodeAt (editAt g second tree) above = some (rebuild node before') →
      RebuiltAlike read (rebuild node before) (rebuild node before')) :
    read (editAt g second (editAt f first tree)) =
      read (editAt f first (editAt g second tree)) := by
  induction first generalizing second tree with
  | nil => exact absurd List.nil_prefix hnot
  | cons index first ih =>
      cases second with
      | nil => exact absurd List.nil_prefix hnot'
      | cons index' second =>
          obtain ⟨place, hplace⟩ := Option.isSome_iff_exists.mp hfirst
          obtain ⟨child, hchild, hplace⟩ := Option.bind_eq_some_iff.mp hplace
          have hbranch : isBranch tree := isBranch_of_getElem?_children hchild
          rw [editAt_editAt_cons hbranch, editAt_editAt_cons hbranch]
          apply halike [] tree _ _ List.nil_prefix List.nil_prefix hbranch
            (List.length_modify ..) (List.length_modify ..) rfl rfl rfl
          by_cases hindex : index = index'
          · subst hindex
            rw [List.cons_prefix_cons] at hnot hnot'
            -- what is above both edits of the child is above both edits of the tree
            have hbelow : read (editAt g second (editAt f first child)) =
                read (editAt f first (editAt g second child)) := by
              apply ih (Option.isSome_iff_exists.mpr ⟨place, hplace⟩) (fun h => hnot ⟨rfl, h⟩)
                (fun h => hnot' ⟨rfl, h⟩)
              intro above node before before' habove habove' hnode hlength hlength' hplace hf hg
              apply halike (index :: above) node before before'
                (List.cons_prefix_cons.mpr ⟨rfl, habove⟩)
                (List.cons_prefix_cons.mpr ⟨rfl, habove'⟩) hnode hlength hlength'
              · rw [nodeAt_cons, hchild, Option.bind_some, hplace]
              · rw [nodeAt_editAt_cons hchild, hf]
              · rw [nodeAt_editAt_cons hchild, hg]
            exact map_modify_modify_comm hchild hbelow
          · rw [List.modify_modify_ne _ _ _ hindex]

theorem rebuiltAlike_plain [PlainTree α] {node : α} (hbranch : isBranch node)
    (before before' : List α) :
    RebuiltAlike PlainTree.plain (rebuild node before) (rebuild node before') := by
  intro nodes others hnodes
  rw [PlainTree.plain_rebuild_rebuild hbranch before hnodes,
    PlainTree.plain_rebuild_rebuild hbranch before' rfl]

end Tree

/-! ## Shapes in between -/

section Shapes

open TreeCursor.Tree

theorem Term.rebuiltAlike_of_shape_eq {term other : Term} (hbranch : term.isBranch = true)
    (hshape : term.shape = other.shape) : RebuiltAlike id term other := by
  intro nodes others hnodes
  rw [List.map_id, List.map_id] at hnodes
  rw [hnodes]
  exact rebuild_eq_of_shape_eq hbranch hshape others

theorem Document.rebuiltAlike_of_shape_eq {document other : Document}
    (hbranch : document.isBranch = true) (hbranch' : other.isBranch = true)
    (hshape : document.shape = other.shape) : RebuiltAlike id document other := by
  intro nodes others hnodes
  rw [List.map_id, List.map_id] at hnodes
  rw [hnodes]
  exact rebuild_eq_of_shape_eq hbranch hbranch' hshape others

/-- Above the end of the route there is a place where the first document has an object and the
second one an array. -/
def Document.BecomesArray (before after : Document) (route : List ℕ) : Prop :=
  ∃ above, above <+: route ∧ above ≠ route ∧
    (nodeAt before above).map shape = some .object ∧ (nodeAt after above).map shape = some .array

instance (before after : Document) (route : List ℕ) : Decidable (before.BecomesArray after route) :=
  decidable_of_iff (∃ above ∈ route.inits, above ≠ route ∧
      (nodeAt before above).map Document.shape = some .object ∧
        (nodeAt after above).map Document.shape = some .array)
    (exists_congr fun above => and_congr_left fun _ => List.mem_inits above route)

theorem Document.shape_rebuild_of_not_becomesArray {before after node : Document}
    {route above : List ℕ} (hkept : ¬BecomesArray before after route) (habove : above <+: route)
    (hne : above ≠ route) (hbranch : node.isBranch = true) {nodes : List Document}
    (hnode : nodeAt before above = some node)
    (hrebuilt : nodeAt after above = some (node.rebuild nodes)) :
    (node.rebuild nodes).shape = node.shape := by
  obtain ⟨items, rfl⟩ | ⟨members, rfl⟩ := exists_of_isBranch hbranch
  · rfl
  · have hshape := shape_rebuild (object members) nodes
    split at hshape
    · exact hshape
    · refine absurd ⟨above, habove, hne, ?_, ?_⟩ hkept
      · rw [hnode]
        rfl
      · rw [hrebuilt, Option.map_some, hshape]

variable {first second : List ℕ} (hnot : ¬first <+: second) (hnot' : ¬second <+: first)
include hnot hnot'

/-- Edits of terms rebuild a pair over two children only, so that it stays one. -/
theorem Term.editAt_comm {term : Term} (hfirst : (nodeAt term first).isSome) (f g : Term → Term) :
    editAt g second (editAt f first term) = editAt f first (editAt g second term) := by
  have hcomm : id (editAt g second (editAt f first term)) =
      id (editAt f first (editAt g second term)) := by
    apply read_editAt_comm hfirst hnot hnot'
    intro above node before before' _ _ hbranch hlength hlength' _ _ _
    apply rebuiltAlike_of_shape_eq (isBranch_rebuild node before)
    exact (shape_rebuild_of_length_eq hbranch hlength).trans
      (shape_rebuild_of_length_eq hbranch hlength').symm
  exact hcomm

theorem Document.plain_editAt_comm {document : Document} (hfirst : (nodeAt document first).isSome)
    (f g : Document → Document) :
    (editAt g second (editAt f first document)).plain =
      (editAt f first (editAt g second document)).plain := by
  apply read_editAt_comm hfirst hnot hnot'
  intro above node before before' _ _ hbranch _ _ _ _ _
  exact rebuiltAlike_plain hbranch before before'

theorem Document.editAt_comm {document : Document} (hfirst : (nodeAt document first).isSome)
    {f g : Document → Document} (hf : ¬BecomesArray document (editAt f first document) first)
    (hg : ¬BecomesArray document (editAt g second document) second) :
    editAt g second (editAt f first document) = editAt f first (editAt g second document) := by
  have hcomm : id (editAt g second (editAt f first document)) =
      id (editAt f first (editAt g second document)) := by
    apply read_editAt_comm hfirst hnot hnot'
    intro above node before before' habove habove' hbranch _ _ hnode hbefore hbefore'
    apply rebuiltAlike_of_shape_eq (isBranch_rebuild node before) (isBranch_rebuild node before')
    have hshape : (node.rebuild before).shape = node.shape :=
      shape_rebuild_of_not_becomesArray hf habove (fun heq => hnot (heq ▸ habove')) hbranch hnode
        hbefore
    have hshape' : (node.rebuild before').shape = node.shape :=
      shape_rebuild_of_not_becomesArray hg habove' (fun heq => hnot' (heq ▸ habove)) hbranch hnode
        hbefore'
    exact hshape.trans hshape'.symm
  exact hcomm

end Shapes

/-! ## Replacements by a cursor -/

namespace Zipper

open TreeCursor.Tree

variable {α : Type*} [Tree α]

/-- A cursor can go from the root of the tree to the end of the route, and whatever way it goes,
with another node put in the place it folds to the edited tree. -/
structure ReplacedAt (tree : α) (route : List ℕ) (node edited : α) : Prop where
  exists_walked : ∃ z, Walked tree z ∧ z.route = route
  root_replace : ∀ z, Walked tree z → z.route = route → (z.replace node).root = edited

/-- One node is replaced, then in the tree that this leaves another one, and both are there in the
end. -/
structure ReplacedInTurn (tree : α) (first : List ℕ) (x : α) (second : List ℕ)
    (y between edited : α) : Prop where
  replacedAt_first : ReplacedAt tree first x between
  nodeAt_between : nodeAt between first = some x
  replacedAt_second : ReplacedAt between second y edited
  nodeAt_first : nodeAt edited first = some x
  nodeAt_second : nodeAt edited second = some y

variable [LawfulTree α] {tree : α}

theorem replacedAt_editAt {route : List ℕ} (hplace : (nodeAt tree route).isSome) (node : α) :
    ReplacedAt tree route node (editAt (fun _ => node) route tree) where
  exists_walked := by
    obtain ⟨place, hplace⟩ := Option.isSome_iff_exists.mp hplace
    exact Script.exists_walked hplace
  root_replace z hwalked hroute := by
    have hroot : id (z.replace node).root = id (editAt (fun _ => node) z.route z.root) :=
      read_root_eq_editAt (fun _ => node) (rebuilds_of_fresh (fresh_of_walked hwalked)) rfl
    rw [root_of_walked hwalked, hroute] at hroot
    exact hroot

omit [LawfulTree α] in
theorem ReplacedAt.unique {route : List ℕ} {node edited edited' : α}
    (hedited : ReplacedAt tree route node edited) (hedited' : ReplacedAt tree route node edited') :
    edited = edited' := by
  obtain ⟨z, hwalked, hroute⟩ := hedited.exists_walked
  exact (hedited.root_replace z hwalked hroute).symm.trans (hedited'.root_replace z hwalked hroute)

theorem replacedInTurn_editAt {first second : List ℕ} (hfirst : (nodeAt tree first).isSome)
    (hsecond : (nodeAt tree second).isSome) (hnot : ¬first <+: second) (hnot' : ¬second <+: first)
    (x y : α) :
    ReplacedInTurn tree first x second y (editAt (fun _ => x) first tree)
      (editAt (fun _ => y) second (editAt (fun _ => x) first tree)) := by
  obtain ⟨node, hnode⟩ := Option.isSome_iff_exists.mp hfirst
  have hbetween : nodeAt (editAt (fun _ => x) first tree) first = some x :=
    nodeAt_editAt hnode fun _ => x
  have hother : (nodeAt (editAt (fun _ => x) first tree) second).isSome := by
    rw [nodeAt_editAt_elsewhere hfirst hnot hnot']
    exact hsecond
  obtain ⟨other, hplace⟩ := Option.isSome_iff_exists.mp hother
  constructor
  case replacedAt_first => exact replacedAt_editAt hfirst x
  case nodeAt_between => exact hbetween
  case replacedAt_second => exact replacedAt_editAt hother y
  case nodeAt_first => rw [nodeAt_editAt_elsewhere hother hnot' hnot, hbetween]
  case nodeAt_second => exact nodeAt_editAt hplace fun _ => y

/-- Two nodes of a tree, neither below the other, may be replaced in either order, and both of them
stay in their places.  Terms come out the same.  Documents do so up to objects read as the arrays of
their entries, and they are the very same unless one of the replacements, made first, makes an array
of an object. -/
theorem replacements_commute :
    (∀ (tree x y : Term) (first second : List ℕ), (nodeAt tree first).isSome →
      (nodeAt tree second).isSome → ¬first <+: second → ¬second <+: first →
      ∃ afterX afterY both,
        ReplacedInTurn tree first x second y afterX both ∧
        ReplacedInTurn tree second y first x afterY both) ∧
    (∀ (tree x y : Document) (first second : List ℕ), (nodeAt tree first).isSome →
      (nodeAt tree second).isSome → ¬first <+: second → ¬second <+: first →
      ∃ afterX afterY xThenY yThenX,
        ReplacedInTurn tree first x second y afterX xThenY ∧
        ReplacedInTurn tree second y first x afterY yThenX ∧
        xThenY.plain = yThenX.plain ∧
        (¬tree.BecomesArray afterX first → ¬tree.BecomesArray afterY second →
          xThenY = yThenX)) := by
  constructor
  · intro tree x y first second hfirst hsecond hnot hnot'
    have hx := replacedInTurn_editAt hfirst hsecond hnot hnot' x y
    have hy := replacedInTurn_editAt hsecond hfirst hnot' hnot y x
    rw [← Term.editAt_comm hnot hnot' hfirst] at hy
    exact ⟨_, _, _, hx, hy⟩
  · intro tree x y first second hfirst hsecond hnot hnot'
    refine ⟨_, _, _, _, replacedInTurn_editAt hfirst hsecond hnot hnot' x y,
      replacedInTurn_editAt hsecond hfirst hnot' hnot y x, ?_, ?_⟩
    · exact Document.plain_editAt_comm hnot hnot' hfirst _ _
    · intro hx hy
      exact Document.editAt_comm hnot hnot' hfirst hx hy

/-- Below a pair and beside it, two children are replaced.  In an object the value of one member
and the key of another one are.  Where a key is changed to one that is there already, and that one
then to yet another, the object is an array in one of the orders only. -/
theorem replacements_commute_in_pair_and_object :
    ((nodeAt (Term.pair (.pair (.int 1) (.int 2)) (.int 3)) [0, 1]).isSome ∧
      (nodeAt (Term.pair (.pair (.int 1) (.int 2)) (.int 3)) [1]).isSome ∧
      ∃ afterX afterY both,
        ReplacedInTurn (Term.pair (.pair (.int 1) (.int 2)) (.int 3)) [0, 1] (.atom "x")
          [1] (.list []) afterX both ∧
        ReplacedInTurn (Term.pair (.pair (.int 1) (.int 2)) (.int 3)) [1] (.list [])
          [0, 1] (.atom "x") afterY both) ∧
    (∃ afterX afterY both,
        ReplacedInTurn (Document.object ⟨[("a", .null), ("b", .null)], by decide⟩)
          [0, 1] (.bool true) [1, 0] (.string "c") afterX both ∧
        ReplacedInTurn (Document.object ⟨[("a", .null), ("b", .null)], by decide⟩)
          [1, 0] (.string "c") [0, 1] (.bool true) afterY both) ∧
    ∃ afterX afterY xThenY yThenX,
      ReplacedInTurn (Document.object ⟨[("a", .null), ("b", .null)], by decide⟩)
        [0, 0] (.string "b") [1, 0] (.string "c") afterX xThenY ∧
      ReplacedInTurn (Document.object ⟨[("a", .null), ("b", .null)], by decide⟩)
        [1, 0] (.string "c") [0, 0] (.string "b") afterY yThenX ∧
      xThenY.plain = yThenX.plain ∧ xThenY.shape = .array ∧ yThenX.shape = .object := by
  have hterm := replacements_commute.1 (.pair (.pair (.int 1) (.int 2)) (.int 3)) (.atom "x")
    (.list []) [0, 1] [1] rfl rfl (by decide) (by decide)
  obtain ⟨afterX, afterY, xThenY, yThenX, hx, hy, -, hsame⟩ := replacements_commute.2
    (.object ⟨[("a", .null), ("b", .null)], by decide⟩) (.bool true) (.string "c") [0, 1] [1, 0]
    rfl rfl (by decide) (by decide)
  obtain rfl := hx.replacedAt_first.unique (replacedAt_editAt rfl _)
  obtain rfl := hy.replacedAt_first.unique (replacedAt_editAt rfl _)
  obtain rfl := hsame (by decide) (by decide)
  obtain ⟨afterX', afterY', xThenY', yThenX', hx', hy', hplain, -⟩ := replacements_commute.2
    (.object ⟨[("a", .null), ("b", .null)], by decide⟩) (.string "b") (.string "c") [0, 0] [1, 0]
    rfl rfl (by decide) (by decide)
  refine ⟨⟨rfl, rfl, hterm⟩, ⟨_, _, _, hx, hy⟩, _, _, _, _, hx', hy', hplain, ?_, ?_⟩
  · obtain rfl := hx'.replacedAt_first.unique (replacedAt_editAt rfl _)
    obtain rfl := hx'.replacedAt_second.unique (replacedAt_editAt rfl _)
    decide
  · obtain rfl := hy'.replacedAt_first.unique (replacedAt_editAt rfl _)
    obtain rfl := hy'.replacedAt_second.unique (replacedAt_editAt rfl _)
    decide

end Zipper

end TreeCursor
