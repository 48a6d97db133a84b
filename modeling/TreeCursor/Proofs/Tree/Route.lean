import TreeCursor.Proofs.Tree.Lawful

/-!
# Places in a tree

A route is a list of child indices that leads from the root of a tree to one of its nodes.  Here
are the node at the end of a route, the edit of a tree at a route, which rebuilds every node on the
way, and the routes of a tree in pre-order, as far down as its nodes are to be entered.
-/

namespace TreeCursor.Tree

variable {α : Type*} [Tree α]

/-- The node at the end of a route, if the tree has a place there. -/
def nodeAt : α → List ℕ → Option α
  | node, [] => some node
  | node, index :: route => (children node)[index]?.bind fun child => nodeAt child route

@[simp]
theorem nodeAt_nil (node : α) : nodeAt node [] = some node := rfl

theorem nodeAt_cons (node : α) (index : ℕ) (route : List ℕ) :
    nodeAt node (index :: route) =
      (children node)[index]?.bind fun child => nodeAt child route := rfl

theorem nodeAt_append (node : α) (first second : List ℕ) :
    nodeAt node (first ++ second) = (nodeAt node first).bind fun place => nodeAt place second := by
  induction first generalizing node with
  | nil => rfl
  | cons index first ih =>
      rw [List.cons_append, nodeAt_cons, nodeAt_cons]
      cases (children node)[index]? with
      | none => rfl
      | some child => exact ih child

theorem nodeAt_append_singleton (node : α) (route : List ℕ) (index : ℕ) :
    nodeAt node (route ++ [index]) =
      (nodeAt node route).bind fun place => (children place)[index]? := by
  rw [nodeAt_append]
  congr 1
  funext place
  rw [nodeAt_cons]
  cases (children place)[index]? <;> rfl

/-- The tree with the node at the end of a route edited and every node above it rebuilt. -/
def editAt (edit : α → α) : List ℕ → α → α
  | [], node => edit node
  | index :: route, node => rebuild node ((children node).modify index (editAt edit route))

theorem editAt_append (edit : α → α) (first second : List ℕ) :
    editAt edit (first ++ second) = editAt (editAt edit second) first := by
  induction first with
  | nil => rfl
  | cons index first ih =>
      funext node
      rw [List.cons_append, editAt, editAt, ih]

/-- The edit of a node that rebuilds it over a change of its children. -/
def editChildren (edit : List α → List α) (node : α) : α :=
  rebuild node (edit (children node))

/-- An edit of a child is an edit of its parent's children. -/
theorem editAt_append_singleton (edit : α → α) (route : List ℕ) (index : ℕ) :
    editAt edit (route ++ [index]) =
      editAt (editChildren fun nodes => nodes.modify index edit) route := by
  rw [editAt_append]
  rfl

/-- The way down from a node through last children, as far as it goes. -/
def lastRoute (node : α) : List ℕ :=
  match hlast : (children node).getLast? with
  | none => []
  | some child => ((children node).length - 1) :: lastRoute child
termination_by nodeCount node
decreasing_by exact nodeCount_lt_of_mem_children (List.mem_of_getLast? hlast)

theorem lastRoute_of_children_eq_nil {node : α} (hchildren : children node = []) :
    lastRoute node = [] := by
  rw [lastRoute]
  split
  · rfl
  · next child hlast => simp [hchildren] at hlast

theorem lastRoute_of_children_eq_append {node last : α} (before : List α)
    (hchildren : children node = before ++ [last]) :
    lastRoute node = before.length :: lastRoute last := by
  rw [lastRoute]
  split
  · next hlast => simp [hchildren] at hlast
  · next child hlast =>
      rw [hchildren, List.getLast?_concat, Option.some.injEq] at hlast
      subst hlast
      simp [hchildren]

/-! ## The tree after an edit -/

section Edited

variable [LawfulTree α]

theorem isBranch_of_getElem?_children {node child : α} {index : ℕ}
    (hchild : (children node)[index]? = some child) : isBranch node = true :=
  isBranch_of_children_ne_nil (List.ne_nil_of_mem (List.mem_of_getElem? hchild))

theorem children_editAt_cons {node : α} (hbranch : isBranch node) (edit : α → α) (index : ℕ)
    (route : List ℕ) :
    children (editAt edit (index :: route) node) =
      (children node).modify index (editAt edit route) :=
  LawfulTree.children_rebuild hbranch _

/-- What lies below the child that is edited is what the edit has made of it. -/
theorem nodeAt_editAt_cons {node child : α} {index : ℕ}
    (hchild : (children node)[index]? = some child) (edit : α → α) (route above : List ℕ) :
    nodeAt (editAt edit (index :: route) node) (index :: above) =
      nodeAt (editAt edit route child) above := by
  rw [nodeAt_cons, children_editAt_cons (isBranch_of_getElem?_children hchild),
    List.getElem?_modify, hchild]
  simp

/-- Above the end of its route an edit makes of a node what it makes of the rest of the route. -/
theorem nodeAt_editAt_append {node place : α} {above : List ℕ}
    (hplace : nodeAt node above = some place) (edit : α → α) (below : List ℕ) :
    nodeAt (editAt edit (above ++ below) node) above = some (editAt edit below place) := by
  induction above generalizing node with
  | nil =>
      cases hplace
      rfl
  | cons index above ih =>
      obtain ⟨child, hchild, hplace⟩ := Option.bind_eq_some_iff.mp hplace
      rw [List.cons_append, nodeAt_editAt_cons hchild]
      exact ih hplace

theorem nodeAt_editAt {node place : α} {route : List ℕ} (hplace : nodeAt node route = some place)
    (edit : α → α) : nodeAt (editAt edit route node) route = some (edit place) := by
  have hedited := nodeAt_editAt_append hplace edit []
  rwa [List.append_nil] at hedited

/-- An edit is not seen at a route that parts from its own. -/
theorem nodeAt_editAt_elsewhere {node : α} {route other : List ℕ}
    (hplace : (nodeAt node route).isSome) (hroute : ¬route <+: other) (hother : ¬other <+: route)
    (edit : α → α) : nodeAt (editAt edit route node) other = nodeAt node other := by
  induction route generalizing node other with
  | nil => exact absurd List.nil_prefix hroute
  | cons index route ih =>
      cases other with
      | nil => exact absurd List.nil_prefix hother
      | cons index' other =>
          obtain ⟨place, hplace⟩ := Option.isSome_iff_exists.mp hplace
          obtain ⟨child, hchild, hplace⟩ := Option.bind_eq_some_iff.mp hplace
          by_cases hindex : index = index'
          · subst hindex
            rw [List.cons_prefix_cons] at hroute hother
            rw [nodeAt_editAt_cons hchild, nodeAt_cons, hchild, Option.bind_some]
            exact ih (Option.isSome_iff_exists.mpr ⟨place, hplace⟩) (fun h => hroute ⟨rfl, h⟩)
              (fun h => hother ⟨rfl, h⟩)
          · rw [nodeAt_cons, children_editAt_cons (isBranch_of_getElem?_children hchild),
              List.getElem?_modify_ne _ _ hindex]
            rfl

end Edited

/-! ## Routes in pre-order -/

section Preorder

variable (enter : α → Bool)

mutual

/-- The routes of a tree in pre-order, but below the root only those through nodes to be entered. -/
def routesInto (node : α) : List (List ℕ) :=
  [] :: routesBelow 0 (children node)
termination_by (nodeCount node, 0)
decreasing_by exact Prod.Lex.left _ _ (forestCount_children_lt node)

/-- The routes to and below the given children, where the first of them has the given index. -/
def routesBelow (index : ℕ) (nodes : List α) : List (List ℕ) :=
  match nodes with
  | [] => []
  | node :: nodes =>
      (if enter node then routesInto node else [[]]).map (index :: ·) ++
        routesBelow (index + 1) nodes
termination_by (forestCount nodes, 1)
decreasing_by
  · rw [forestCount_cons, Prod.lex_def]
    omega
  · rw [forestCount_cons, Prod.lex_def]
    have hpos := nodeCount_pos node
    omega

end

/-- All nodes strictly between the root of a tree and the end of a route are to be entered. -/
def Enters (node : α) (route : List ℕ) : Prop :=
  ∀ above below place, route = above ++ below → above ≠ [] → below ≠ [] →
    nodeAt node above = some place → enter place

theorem enters_nil (node : α) : Enters enter node [] := by
  intro above below place happend habove
  exact absurd (List.append_eq_nil_iff.mp happend.symm).1 habove

variable {enter}

theorem enters_cons {node child : α} {index : ℕ} (hchild : (children node)[index]? = some child)
    (route : List ℕ) :
    Enters enter node (index :: route) ↔
      (route ≠ [] → enter child) ∧ Enters enter child route := by
  have hnodeAt : ∀ above, nodeAt node (index :: above) = nodeAt child above := by
    intro above
    rw [nodeAt_cons, hchild, Option.bind_some]
  constructor
  · intro henters
    constructor
    · intro hroute
      exact henters [index] route child rfl (List.cons_ne_nil index []) hroute (hnodeAt [])
    · intro above below place happend _ hbelow hplace
      exact henters (index :: above) below place (happend ▸ rfl) (List.cons_ne_nil index above)
        hbelow ((hnodeAt above).trans hplace)
  · rintro ⟨hfirst, henters⟩ (_ | ⟨first, above⟩) below place happend habove hbelow hplace
    · exact absurd rfl habove
    · cases happend
      rw [hnodeAt] at hplace
      cases above with
      | nil =>
          cases hplace
          exact hfirst hbelow
      | cons next above =>
          exact henters (next :: above) below place rfl (List.cons_ne_nil next above) hbelow hplace

theorem routesInto_eq (node : α) :
    routesInto enter node = [] :: routesBelow enter 0 (children node) := by
  rw [routesInto]

@[simp]
theorem routesBelow_nil (index : ℕ) : routesBelow enter index [] = [] := by
  rw [routesBelow]

@[simp]
theorem routesBelow_cons (index : ℕ) (node : α) (nodes : List α) :
    routesBelow enter index (node :: nodes) =
      (if enter node then routesInto enter node else [[]]).map (index :: ·) ++
        routesBelow enter (index + 1) nodes := by
  rw [routesBelow]

theorem routesBelow_append (index : ℕ) (before after : List α) :
    routesBelow enter index (before ++ after) =
      routesBelow enter index before ++ routesBelow enter (index + before.length) after := by
  induction before generalizing index with
  | nil =>
      rw [routesBelow_nil]
      rfl
  | cons node before ih =>
      rw [List.cons_append, routesBelow_cons, routesBelow_cons, ih, List.append_assoc,
        List.length_cons, Nat.add_right_comm, Nat.add_assoc]

theorem mem_routesBelow {index : ℕ} {nodes : List α} {route : List ℕ} :
    route ∈ routesBelow enter index nodes ↔
      ∃ offset node below, nodes[offset]? = some node ∧
        below ∈ (if enter node then routesInto enter node else [[]]) ∧
          route = (index + offset) :: below := by
  induction nodes generalizing index with
  | nil => simp
  | cons node nodes ih =>
      rw [routesBelow_cons, List.mem_append, List.mem_map, ih]
      constructor
      · rintro (⟨below, hbelow, rfl⟩ | ⟨offset, other, below, hother, hbelow, rfl⟩)
        · exact ⟨0, node, below, rfl, hbelow, rfl⟩
        · exact ⟨offset + 1, other, below, hother, hbelow, by rw [Nat.add_right_comm]; rfl⟩
      · rintro ⟨_ | offset, other, below, hother, hbelow, rfl⟩
        · cases hother
          exact Or.inl ⟨below, hbelow, rfl⟩
        · exact Or.inr ⟨offset, other, below, hother, hbelow, by rw [Nat.add_right_comm]; rfl⟩

/-- The routes are those that lead to a node, through nodes to be entered only. -/
theorem mem_routesInto {node : α} {route : List ℕ} :
    route ∈ routesInto enter node ↔ (nodeAt node route).isSome ∧ Enters enter node route := by
  induction node using children_induction generalizing route with
  | hstep node ih =>
      rw [routesInto_eq, List.mem_cons, mem_routesBelow]
      cases route with
      | nil => simp [enters_nil]
      | cons index below =>
          rw [nodeAt_cons]
          cases hchild : (children node)[index]? with
          | none => simp +contextual [hchild]
          | some child =>
              have hmem : below ∈ routesInto enter child ↔
                  (nodeAt child below).isSome ∧ Enters enter child below :=
                ih child (List.mem_of_getElem? hchild)
              rw [enters_cons hchild, Option.bind_some]
              by_cases henter : enter child
              · simp [hchild, henter, hmem]
              · simp +contextual [hchild, henter, iff_def, enters_nil]

/-- Pre-order is the lexicographic order of routes. -/
theorem pairwise_routesBelow {nodes : List α}
    (hnodes : ∀ node ∈ nodes, (routesInto enter node).Pairwise (· < ·)) (index : ℕ) :
    (routesBelow enter index nodes).Pairwise (· < ·) := by
  induction nodes generalizing index with
  | nil =>
      rw [routesBelow_nil]
      exact List.Pairwise.nil
  | cons node nodes ih =>
      obtain ⟨hnode, hothers⟩ := List.forall_mem_cons.mp hnodes
      rw [routesBelow_cons, List.pairwise_append, List.pairwise_map]
      refine ⟨?_, ih hothers (index + 1), ?_⟩
      · have hentered : (if enter node then routesInto enter node else [[]]).Pairwise (· < ·) := by
          split
          · exact hnode
          · exact List.pairwise_singleton _ _
        exact hentered.imp fun hless => List.cons_lt_cons_iff.mpr (Or.inr ⟨rfl, hless⟩)
      · intro first hfirst second hsecond
        obtain ⟨below, -, rfl⟩ := List.mem_map.mp hfirst
        obtain ⟨offset, other, below', -, -, rfl⟩ := mem_routesBelow.mp hsecond
        exact List.cons_lt_cons_iff.mpr (Or.inl (by omega))

theorem pairwise_routesInto (node : α) : (routesInto enter node).Pairwise (· < ·) := by
  induction node using children_induction with
  | hstep node ih =>
      rw [routesInto_eq, List.pairwise_cons]
      refine ⟨?_, pairwise_routesBelow ih 0⟩
      intro route hroute
      obtain ⟨offset, child, below, -, -, rfl⟩ := mem_routesBelow.mp hroute
      exact List.nil_lt_cons _ _

end Preorder

end TreeCursor.Tree
