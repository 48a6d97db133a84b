import TreeCursor.Proofs.Tree.Route

/-!
# Pre-order

In pre-order a node comes before the nodes below it, and these come before the nodes to the right.
A stack of trees lists the nodes so, and its listing of one tree is the root followed by the listings
of the children; an outline gives their depths as well.  On routes it is the lexicographic order:
right after a route come the routes below it, if there are any, and then the routes beyond it.  The
last of all is the way down through last children.
-/

namespace TreeCursor.Tree

/-! ## The listing of a tree -/

section Listing

variable {α : Type*} [Tree α]

@[simp]
theorem preorderStack_nil : preorderStack ([] : List α) = [] := by
  rw [preorderStack]

theorem preorderStack_cons (node : α) (stack : List α) :
    preorderStack (node :: stack) = node :: preorderStack (children node ++ stack) := by
  rw [preorderStack]

/-- What lies deeper in the stack is listed after all that lies above it. -/
theorem preorderStack_append (nodes stack : List α) :
    preorderStack (nodes ++ stack) = preorderStack nodes ++ preorderStack stack := by
  fun_induction preorderStack nodes with
  | case1 => rfl
  | case2 node nodes ih =>
      rw [List.cons_append, preorderStack_cons, ← List.append_assoc, ih, List.cons_append]

theorem preorderStack_eq_flatMap (nodes : List α) :
    preorderStack nodes = nodes.flatMap preorder := by
  induction nodes with
  | nil => exact preorderStack_nil
  | cons node nodes ih =>
      rw [List.flatMap_cons, ← ih, preorder, ← preorderStack_append, List.singleton_append]

/-- A tree is listed as its root and the listings of its children. -/
theorem preorder_eq (node : α) : preorder node = node :: (children node).flatMap preorder := by
  rw [preorder, preorderStack_cons, List.append_nil, preorderStack_eq_flatMap]

theorem length_preorderStack (nodes : List α) :
    (preorderStack nodes).length = forestCount nodes := by
  fun_induction preorderStack nodes with
  | case1 => rfl
  | case2 node nodes ih =>
      rw [List.length_cons, ih, forestCount_append, forestCount_cons,
        nodeCount_eq_forestCount node]
      omega

theorem length_preorder (node : α) : (preorder node).length = nodeCount node := by
  rw [preorder, length_preorderStack, forestCount_cons, forestCount_nil, Nat.add_zero]

/-- The nodes of a tree in pre-order, each with its depth, where the root has the given one. -/
def outline (depth : ℕ) (node : α) : List (ℕ × α) :=
  (depth, node) :: (children node).attach.flatMap fun child => outline (depth + 1) child.val
termination_by nodeCount node
decreasing_by exact nodeCount_lt_of_mem_children child.property

theorem outline_eq (depth : ℕ) (node : α) :
    outline depth node = (depth, node) :: (children node).flatMap (outline (depth + 1)) := by
  rw [outline]
  conv => rhs; rw [← List.attach_map_subtype_val (children node), List.flatMap_map]

/-- Without the depths an outline is the listing of the nodes. -/
theorem map_snd_outline (depth : ℕ) (node : α) : (outline depth node).map Prod.snd = preorder node := by
  induction node using children_induction generalizing depth with
  | hstep node ih =>
      rw [outline_eq, preorder_eq, List.map_cons, List.map_flatMap]
      congr 1
      exact List.flatMap_congr fun child hchild => ih child hchild (depth + 1)

theorem length_outline (depth : ℕ) (node : α) : (outline depth node).length = nodeCount node := by
  rw [← length_preorder, ← map_snd_outline depth, List.length_map]

end Listing

/-! ## The routes of a tree -/

section Routes

variable {α : Type*} [Tree α]

/-- The routes of a tree in pre-order. -/
def routes (node : α) : List (List ℕ) :=
  routesInto (fun _ => true) node

/-- The number of places that come before the one at the end of a route. -/
def preorderIndex (tree : α) (route : List ℕ) : ℕ :=
  (routes tree).idxOf route

/-- The number of places that come after the one at the end of a route. -/
def placesAfter (tree : α) (route : List ℕ) : ℕ :=
  (routes tree).countP fun place => route < place

theorem nodup_routes (node : α) : (routes node).Nodup := by
  refine (pairwise_routesInto node).imp ?_
  rintro route _ hless rfl
  exact List.lt_irrefl route hless

theorem mem_routes {node : α} {route : List ℕ} : route ∈ routes node ↔ (nodeAt node route).isSome := by
  rw [routes, mem_routesInto, and_iff_left_iff_imp]
  intro _ above below place _ _ _ _
  rfl

theorem length_routesBelow {nodes : List α}
    (hnodes : ∀ node ∈ nodes, (routes node).length = nodeCount node) (index : ℕ) :
    (routesBelow (fun _ => true) index nodes).length = forestCount nodes := by
  induction nodes generalizing index with
  | nil =>
      rw [routesBelow_nil]
      rfl
  | cons node nodes ih =>
      obtain ⟨hnode, hnodes⟩ := List.forall_mem_cons.mp hnodes
      rw [routesBelow_cons, if_pos rfl, List.length_append, List.length_map, ih hnodes,
        forestCount_cons, ← hnode, routes]

theorem length_routes (node : α) : (routes node).length = nodeCount node := by
  induction node using children_induction with
  | hstep node ih =>
      rw [routes, routesInto_eq, List.length_cons, length_routesBelow ih,
        nodeCount_eq_forestCount, Nat.add_comm]

/-- Around a child the routes of its parent are those to its left, its own and those to its right. -/
theorem routes_of_children_eq_append {node child : α} {before after : List α}
    (hchildren : children node = before ++ child :: after) :
    routes node = ([] :: routesBelow (fun _ => true) 0 before) ++
      ((routes child).map (before.length :: ·) ++
        routesBelow (fun _ => true) (before.length + 1) after) := by
  rw [routes, routesInto_eq, hchildren, routesBelow_append, Nat.zero_add, routesBelow_cons,
    if_pos rfl]
  rfl

/-- The last route in pre-order is the way down through last children. -/
theorem getLast?_routes (node : α) : (routes node).getLast? = some (lastRoute node) := by
  induction node using children_induction with
  | hstep node ih =>
      obtain hchildren | ⟨before, last, hchildren⟩ := (children node).eq_nil_or_concat'
      · rw [routes, routesInto_eq, hchildren, routesBelow_nil,
          lastRoute_of_children_eq_nil hchildren]
        rfl
      · rw [routes_of_children_eq_append hchildren, routesBelow_nil, List.append_nil,
          List.getLast?_append, List.getLast?_map, ih last (by rw [hchildren]; simp),
          lastRoute_of_children_eq_append before hchildren]
        rfl

/-- The last place is the one that no other place comes after. -/
theorem getLast?_routes_eq_some_iff {node : α} {route : List ℕ} :
    (routes node).getLast? = some route ↔
      route ∈ routes node ∧ ∀ place ∈ routes node, ¬route < place := by
  have hlast : ∀ last, (routes node).getLast? = some last →
      ∀ place ∈ routes node, place < last ∨ place = last := by
    intro last hgetLast place hplace
    obtain ⟨before, hroutes⟩ := List.getLast?_eq_some_iff.mp hgetLast
    have hsorted : (routes node).Pairwise (· < ·) := pairwise_routesInto node
    rw [hroutes] at hplace hsorted
    rcases List.mem_append.mp hplace with hbefore | hself
    · exact .inl ((List.pairwise_append.mp hsorted).2.2 place hbefore last List.mem_cons_self)
    · exact .inr (List.mem_singleton.mp hself)
  constructor
  · intro hgetLast
    refine ⟨List.mem_of_getLast? hgetLast, ?_⟩
    intro place hplace hless
    rcases hlast route hgetLast place hplace with hbefore | rfl
    · exact List.lt_asymm hless hbefore
    · exact List.lt_irrefl place hless
  · rintro ⟨hmem, hnone⟩
    have hgetLast := getLast?_routes node
    rcases hlast _ hgetLast route hmem with hless | rfl
    · exact absurd hless (hnone _ (List.mem_of_getLast? hgetLast))
    · exact hgetLast

end Routes

/-! ## The order of routes -/

/-- The second route parts from the first one to the right, so that it comes after the first one and
all below it. -/
def Beyond : List ℕ → List ℕ → Prop
  | index :: route, index' :: route' => index < index' ∨ index = index' ∧ Beyond route route'
  | _, _ => False

section Beyond

variable {route route' : List ℕ}

@[simp]
theorem not_beyond_nil : ¬Beyond [] route := by
  simp [Beyond]

@[simp]
theorem not_beyond_nil_right : ¬Beyond route [] := by
  cases route <;> simp [Beyond]

@[simp]
theorem beyond_cons_cons {index index' : ℕ} :
    Beyond (index :: route) (index' :: route') ↔
      index < index' ∨ index = index' ∧ Beyond route route' := Iff.rfl

/-- A route beyond a node is beyond all that is below the node. -/
theorem Beyond.append (hbeyond : Beyond route route') (below : List ℕ) :
    Beyond (route ++ below) route' := by
  induction route generalizing route' with
  | nil => exact absurd hbeyond not_beyond_nil
  | cons index route ih =>
      cases route' with
      | nil => exact absurd hbeyond not_beyond_nil_right
      | cons index' route' => exact Or.imp_right (And.imp_right ih) hbeyond

/-- What is below a route beyond a node is beyond the node as well. -/
theorem Beyond.append_right (hbeyond : Beyond route route') (below : List ℕ) :
    Beyond route (route' ++ below) := by
  induction route generalizing route' with
  | nil => exact absurd hbeyond not_beyond_nil
  | cons index route ih =>
      cases route' with
      | nil => exact absurd hbeyond not_beyond_nil_right
      | cons index' route' => exact Or.imp_right (And.imp_right ih) hbeyond

theorem not_beyond_append (below : List ℕ) : ¬Beyond route (route ++ below) := by
  induction route with
  | nil => exact not_beyond_nil
  | cons index route ih =>
      rw [List.cons_append, beyond_cons_cons]
      rintro (hless | ⟨-, hbeyond⟩)
      · exact absurd hless (Nat.lt_irrefl index)
      · exact ih hbeyond

/-- What is beyond a child is beyond its parent, or in a child on the right. -/
theorem beyond_append_singleton_iff {above : List ℕ} {index : ℕ} :
    Beyond (above ++ [index]) route ↔
      Beyond above route ∨ ∃ index' below, index < index' ∧ route = above ++ index' :: below := by
  induction above generalizing route with
  | nil => cases route <;> simp
  | cons first above ih =>
      cases route with
      | nil => simp
      | cons first' route =>
          by_cases hfirst : first = first'
          · simp [hfirst, ih]
          · simp [hfirst, Ne.symm hfirst]

/-- The routes after a route are those below it and those beyond it. -/
theorem lt_iff_below_or_beyond :
    route < route' ↔ (∃ index below, route' = route ++ index :: below) ∨ Beyond route route' := by
  induction route generalizing route' with
  | nil => cases route' <;> simp
  | cons index route ih =>
      cases route' with
      | nil => simp
      | cons index' route' =>
          by_cases hindex : index = index'
          · simp [hindex, ih]
          · simp [hindex, Ne.symm hindex, List.cons_lt_cons_iff]

/-- No route comes between a route and that of its first child. -/
theorem at_or_after_append_zero_iff :
    (route' = route ++ [0] ∨ route ++ [0] < route') ↔ route < route' := by
  induction route generalizing route' with
  | nil =>
      cases route' with
      | nil => simp
      | cons index' route' =>
          cases route' <;> simp [List.cons_lt_cons_iff, Nat.eq_zero_or_pos, eq_comm, or_comm]
  | cons index route ih =>
      cases route' with
      | nil => simp
      | cons index' route' =>
          by_cases hindex : index = index'
          · simp [hindex, ih]
          · simp [hindex, Ne.symm hindex, List.cons_lt_cons_iff]

/-- What is beyond a node is what comes at or after its next sibling. -/
theorem at_or_after_append_succ_iff {above : List ℕ} {index : ℕ} :
    (route = above ++ [index + 1] ∨ above ++ [index + 1] < route) ↔
      Beyond (above ++ [index]) route := by
  induction above generalizing route with
  | nil =>
      cases route with
      | nil => simp
      | cons first route =>
          have hless : index < first ↔ index + 1 < first ∨ index + 1 = first := by omega
          cases route <;> simp [List.cons_lt_cons_iff, hless, eq_comm, or_comm]
  | cons first above ih =>
      cases route with
      | nil => simp
      | cons first' route =>
          by_cases hfirst : first = first'
          · simp [hfirst, ih]
          · simp [hfirst, Ne.symm hfirst, List.cons_lt_cons_iff]

end Beyond

end TreeCursor.Tree
