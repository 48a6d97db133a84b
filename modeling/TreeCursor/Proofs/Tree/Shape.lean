import Mathlib.Data.List.Nodup
import TreeCursor.Proofs.Json.Lawful
import TreeCursor.Proofs.Term.Lawful

/-!
# The shape of a rebuilt node

What a node is apart from its children is its shape.  Rebuilding keeps it, with two exceptions.  A
pair has no place for other than two children and becomes a block over them.  An object becomes an
array over nodes that are not all entries, or of which two carry the same key.
-/

namespace TreeCursor

/-- Taken apart and put together a branch is what it was, and over other nodes it has these and no
others.  A leaf has no children, and over other nodes it is the first of them. -/
structure Tree.KeepsChildren {α : Type*} [Tree α] (node : α) (nodes : List α) : Prop where
  rebuild_children : Tree.isBranch node → Tree.rebuild node (Tree.children node) = node
  isBranch_rebuild : Tree.isBranch node → Tree.isBranch (Tree.rebuild node nodes)
  children_rebuild : Tree.isBranch node → Tree.children (Tree.rebuild node nodes) = nodes
  children_leaf : Tree.isBranch node = false → Tree.children node = []
  children_rebuild_leaf :
    Tree.isBranch node = false → Tree.children (Tree.rebuild node nodes) = node :: nodes

theorem Tree.keepsChildren {α : Type*} [Tree α] [LawfulTree α] (node : α) (nodes : List α) :
    KeepsChildren node nodes where
  rebuild_children hbranch := LawfulTree.rebuild_children hbranch
  isBranch_rebuild _ := LawfulTree.isBranch_rebuild node nodes
  children_rebuild hbranch := LawfulTree.children_rebuild hbranch nodes
  children_leaf hleaf := LawfulTree.children_leaf hleaf
  children_rebuild_leaf hleaf := LawfulTree.children_rebuild_leaf hleaf nodes

/-! ## Terms -/

namespace Term

inductive Shape where
  | call (tag : String)
  | pair
  | block
  | list
  | leaf
  deriving DecidableEq

/-- A term apart from its children; all leaves count as one shape. -/
def shape : Term → Shape
  | .call tag _ => .call tag
  | .pair _ _ => .pair
  | .block _ => .block
  | .list _ => .list
  | .atom _ => .leaf
  | .int _ => .leaf
  | .str _ => .leaf

theorem shape_rebuild (term : Term) (children : List Term) :
    (term.rebuild children).shape =
      if term.shape = .leaf ∨ term.shape = .pair ∧ children.length ≠ 2 then .block
      else term.shape := by
  cases term with
  | pair left right =>
      by_cases hlength : children.length = 2
      · obtain ⟨first, second, rfl⟩ := List.length_eq_two.mp hlength
        rfl
      · rw [rebuild_pair_of_length_ne_two left right hlength, if_pos (Or.inr ⟨rfl, hlength⟩)]
        rfl
  | call tag args => simp [rebuild, shape]
  | block items => simp [rebuild, shape]
  | list items => simp [rebuild, shape]
  | atom name => rfl
  | int value => rfl
  | str value => rfl

/-- What a branch becomes over new children depends on its shape only. -/
theorem rebuild_eq_of_shape_eq {term other : Term} (hbranch : term.isBranch = true)
    (hshape : term.shape = other.shape) (children : List Term) :
    term.rebuild children = other.rebuild children := by
  cases term with
  | call tag args =>
      cases other <;> cases hshape
      rfl
  | pair left right =>
      cases other <;> cases hshape
      rfl
  | block items =>
      cases other <;> cases hshape
      rfl
  | list items =>
      cases other <;> cases hshape
      rfl
  | _ => cases hbranch

/-- Over as many children as it has a branch keeps its shape. -/
theorem shape_rebuild_of_length_eq {term : Term} (hbranch : term.isBranch = true)
    {children : List Term} (hlength : children.length = term.children.length) :
    (term.rebuild children).shape = term.shape := by
  cases term with
  | pair left right =>
      obtain ⟨first, second, rfl⟩ := List.length_eq_two.mp hlength
      rfl
  | call tag args => rfl
  | block items => rfl
  | list items => rfl
  | _ => cases hbranch

/-- A pair that has been rebuilt over other than two children is a block, also over two. -/
def ForgetsPair (term : Term) (before after : List Term) : Prop :=
  term.shape = .pair ∧ before.length ≠ 2 ∧ after.length = 2

/-- Rebuilt twice a branch is what it is rebuilt once, unless it forgets that it was a pair. -/
theorem rebuild_rebuild_eq_iff {term : Term} (hbranch : term.isBranch = true)
    (before after : List Term) :
    (term.rebuild before).rebuild after = term.rebuild after ↔ ¬term.ForgetsPair before after := by
  cases term with
  | pair left right =>
      by_cases hbefore : before.length = 2
      · obtain ⟨first, second, rfl⟩ := List.length_eq_two.mp hbefore
        rw [rebuild_pair_two]
        exact iff_of_true (rebuild_eq_of_shape_eq rfl rfl after) fun h => h.2.1 rfl
      · rw [rebuild_pair_of_length_ne_two left right hbefore]
        by_cases hafter : after.length = 2
        · refine iff_of_false ?_ (not_not_intro ⟨rfl, hbefore, hafter⟩)
          obtain ⟨first, second, rfl⟩ := List.length_eq_two.mp hafter
          exact Term.noConfusion
        · rw [rebuild_pair_of_length_ne_two left right hafter]
          exact iff_of_true rfl fun h => hafter h.2.2
  | call tag args => exact iff_of_true rfl fun h => nomatch h.1
  | block items => exact iff_of_true rfl fun h => nomatch h.1
  | list items => exact iff_of_true rfl fun h => nomatch h.1
  | _ => cases hbranch

end Term

/-! ## Documents -/

namespace Document

inductive Shape where
  | array
  | object
  | leaf
  deriving DecidableEq

/-- A document apart from its children; all leaves count as one shape. -/
def shape (document : Document) : Shape :=
  match document.value with
  | .array _ => .array
  | .object _ => .object
  | _ => .leaf

/-- No object has these children: one of them is not an array of a string and one value more, or
two of them carry the same key. -/
def NoMembers (nodes : List Document) : Prop :=
  (∃ node ∈ nodes, ∀ key value, node ≠ array [string key, value]) ∨
    ∃ (i j : ℕ) (key : String) (value value' : Document), i < j ∧
      nodes[i]? = some (array [string key, value]) ∧ nodes[j]? = some (array [string key, value'])

theorem exists_entries {nodes : List Document}
    (hnodes : ∀ node ∈ nodes, ∃ key value, node = array [string key, value]) :
    ∃ entries : List (String × Document),
      nodes = entries.map fun (key, value) => entry key value := by
  induction nodes with
  | nil => exact ⟨[], rfl⟩
  | cons node nodes ih =>
      obtain ⟨⟨key, value, rfl⟩, hothers⟩ := List.forall_mem_cons.mp hnodes
      obtain ⟨entries, rfl⟩ := ih hothers
      exact ⟨(key, value) :: entries, rfl⟩

/-- Some key comes twice if it does so at two places. -/
theorem not_nodup_map_fst_iff {entries : List (String × Document)} :
    ¬(entries.map Prod.fst).Nodup ↔
      ∃ (i j : ℕ) (key : String) (value value' : Document), i < j ∧
        entries[i]? = some (key, value) ∧ entries[j]? = some (key, value') := by
  rw [List.nodup_iff_getElem?_ne_getElem?]
  push Not
  simp only [List.length_map, List.getElem?_map]
  constructor
  · rintro ⟨i, j, hless, hj, hkeys⟩
    have hi : i < entries.length := hless.trans hj
    rw [List.getElem?_eq_getElem hi, List.getElem?_eq_getElem hj] at hkeys
    refine ⟨i, j, entries[i].1, entries[i].2, entries[j].2, hless, ?_, ?_⟩
    · exact List.getElem?_eq_getElem hi
    · rw [Option.some.inj hkeys]
      exact List.getElem?_eq_getElem hj
  · rintro ⟨i, j, key, value, value', hless, hi, hj⟩
    refine ⟨i, j, hless, (List.getElem?_eq_some_iff.mp hj).1, ?_⟩
    rw [hi, hj]
    rfl

theorem asMembers?_entries_eq_none_iff {entries : List (String × Document)} :
    asMembers? (entries.map fun (key, value) => entry key value) = none ↔
      ¬(entries.map Prod.fst).Nodup := by
  constructor
  · intro hnone hnodup
    have hsome := asMembers?_entries ⟨entries, hnodup⟩
    exact absurd (hsome.symm.trans hnone) (Option.some_ne_none _)
  · intro hrepeated
    rw [Option.eq_none_iff_forall_ne_some]
    intro members hmembers
    obtain rfl := map_entry_inj.mp (asMembers?_eq_some_iff.mp hmembers)
    exact hrepeated members.nodup

theorem getElem?_entries_eq_some_iff {entries : List (String × Document)} {i : ℕ} {key : String}
    {value : Document} :
    (entries.map fun (key, value) => entry key value)[i]? = some (array [string key, value]) ↔
      entries[i]? = some (key, value) := by
  rw [List.getElem?_map, Option.map_eq_some_iff]
  constructor
  · rintro ⟨member, hmember, heq⟩
    have hread : some member = some (key, value) := congrArg asEntry? heq
    rw [hmember, hread]
  · intro hmember
    exact ⟨(key, value), hmember, rfl⟩

/-- Nodes are read as members unless one of them is no entry or two carry the same key. -/
theorem asMembers?_eq_none_iff {nodes : List Document} :
    asMembers? nodes = none ↔ NoMembers nodes := by
  by_cases hentries : ∀ node ∈ nodes, ∃ key value, node = array [string key, value]
  · obtain ⟨entries, rfl⟩ := exists_entries hentries
    rw [asMembers?_entries_eq_none_iff, not_nodup_map_fst_iff, NoMembers]
    simp only [getElem?_entries_eq_some_iff]
    refine (or_iff_right ?_).symm
    rintro ⟨node, hnode, hother⟩
    obtain ⟨key, value, heq⟩ := hentries node hnode
    exact hother key value heq
  · have hnone : asMembers? nodes = none := by
      by_contra hsome
      obtain ⟨members, hmembers⟩ := Option.ne_none_iff_exists'.mp hsome
      rw [asMembers?_eq_some_iff.mp hmembers] at hentries
      apply hentries
      intro node hnode
      obtain ⟨⟨key, value⟩, -, rfl⟩ := List.mem_map.mp hnode
      exact ⟨key, value, rfl⟩
    push Not at hentries
    exact iff_of_true hnone (Or.inl hentries)

instance (nodes : List Document) : Decidable (NoMembers nodes) :=
  decidable_of_iff ((asMembers? nodes).isNone = true)
    (Option.isNone_iff_eq_none.trans asMembers?_eq_none_iff)

theorem shape_rebuild (document : Document) (nodes : List Document) :
    (document.rebuild nodes).shape =
      if document.shape = .object ∧ ¬NoMembers nodes then .object else .array := by
  cases hbranch : document.isBranch with
  | false =>
      have hshape : document.shape ≠ .object := by
        rcases document with ⟨value, hvalue⟩
        cases value with
        | object members => cases hbranch
        | _ => exact Shape.noConfusion
      rw [rebuild_leaf hbranch, if_neg fun h => hshape h.1]
      rfl
  | true =>
      obtain ⟨items, rfl⟩ | ⟨members, rfl⟩ := exists_of_isBranch hbranch
      · rfl
      · by_cases hnodes : NoMembers nodes
        · rw [rebuild_object_of_asMembers?_eq_none members (asMembers?_eq_none_iff.mpr hnodes),
            if_neg fun h => h.2 hnodes]
          rfl
        · have hsome := mt asMembers?_eq_none_iff.mp hnodes
          obtain ⟨others, hothers⟩ := Option.ne_none_iff_exists'.mp hsome
          rw [asMembers?_eq_some_iff.mp hothers, rebuild_object_entries, if_pos]
          · rfl
          · exact ⟨rfl, asMembers?_eq_some_iff.mp hothers ▸ hnodes⟩

/-- What a branch becomes over new children depends on its shape only. -/
theorem rebuild_eq_of_shape_eq {document other : Document} (hbranch : document.isBranch = true)
    (hbranch' : other.isBranch = true) (hshape : document.shape = other.shape)
    (children : List Document) : document.rebuild children = other.rebuild children := by
  obtain ⟨items, rfl⟩ | ⟨members, rfl⟩ := exists_of_isBranch hbranch
  · obtain ⟨others, rfl⟩ | ⟨others, rfl⟩ := exists_of_isBranch hbranch'
    · rfl
    · cases hshape
  · obtain ⟨others, rfl⟩ | ⟨others, rfl⟩ := exists_of_isBranch hbranch'
    · cases hshape
    · rfl

/-- An object that has been rebuilt over nodes which cannot be its members is an array, also over
members. -/
def ForgetsObject (document : Document) (before after : List Document) : Prop :=
  document.shape = .object ∧ NoMembers before ∧ ¬NoMembers after

/-- Rebuilt twice a branch is what it is rebuilt once, unless it forgets that it was an object. -/
theorem rebuild_rebuild_eq_iff {document : Document} (hbranch : document.isBranch = true)
    (before after : List Document) :
    (document.rebuild before).rebuild after = document.rebuild after ↔
      ¬document.ForgetsObject before after := by
  obtain ⟨items, rfl⟩ | ⟨members, rfl⟩ := exists_of_isBranch hbranch
  · exact iff_of_true rfl fun h => nomatch h.1
  · by_cases hbefore : NoMembers before
    · rw [rebuild_object_of_asMembers?_eq_none members (asMembers?_eq_none_iff.mpr hbefore),
        rebuild_array]
      by_cases hafter : NoMembers after
      · rw [rebuild_object_of_asMembers?_eq_none members (asMembers?_eq_none_iff.mpr hafter)]
        exact iff_of_true rfl fun h => h.2.2 hafter
      · refine iff_of_false ?_ (not_not_intro ⟨rfl, hbefore, hafter⟩)
        intro heq
        have hshape := congrArg shape heq
        rw [shape_rebuild (object members), if_pos ⟨rfl, hafter⟩] at hshape
        cases hshape
    · have hshape : ((object members).rebuild before).shape = (object members).shape := by
        rw [shape_rebuild, if_pos ⟨rfl, hbefore⟩]
        rfl
      exact iff_of_true (rebuild_eq_of_shape_eq (isBranch_rebuild _ before) rfl hshape after)
        fun h => hbefore h.2.1

example : NoMembers [entry "a" .null, entry "b" .null, entry "a" (.bool true)] := by decide

end Document

/-- Terms and documents are what they were once put together again, keep the children they are
given and also their shapes.  Only leaves take a new shape, pairs do so over other than two nodes,
and objects over nodes that cannot be their members. -/
theorem rebuild_keeps_children_and_shape :
    (∀ (term : Term) (nodes : List Term),
      Tree.KeepsChildren term nodes ∧
      (Tree.rebuild term nodes).shape =
        if term.shape = .leaf ∨ term.shape = .pair ∧ nodes.length ≠ 2 then .block
        else term.shape) ∧
    (∀ (document : Document) (nodes : List Document),
      Tree.KeepsChildren document nodes ∧
      (Tree.rebuild document nodes).shape =
        if document.shape = .object ∧ ¬Document.NoMembers nodes then .object else .array) :=
  ⟨fun term nodes => ⟨Tree.keepsChildren term nodes, Term.shape_rebuild term nodes⟩,
    fun document nodes =>
      ⟨Tree.keepsChildren document nodes, Document.shape_rebuild document nodes⟩⟩

end TreeCursor
