import TreeCursor.Proofs.Json.Lawful
import TreeCursor.Proofs.Term.Lawful
import TreeCursor.Proofs.Zipper.Walk

/-!
# Walks that rewrite a tree from the top down

A rewriter replaces one node at a time and decides where to go on.  Handed to the walk of a cursor,
it does what a recursion over the tree does that rewrites a node before its children, which are
those that the node has by then.  The walk keeps no stack: what of the recursion is still to be done
stands to the right of the path, and what is done of it to the left.
-/

namespace TreeCursor

/-- A rewriting of single nodes that carries an accumulator along.  It may go on below a node if
the node has not grown. -/
structure Rewriter (α σ : Type*) [Tree α] where
  apply : α → σ → Control (α × σ)
  nodeCount_le {node node' : α} {acc acc' : σ} :
    apply node acc = .proceed (node', acc') → Tree.nodeCount node' ≤ Tree.nodeCount node

/-- What comes of a rewriting: the result and the accumulator, whether the rewriting was halted,
and the nodes that it was handed. -/
structure Rewritten (α σ β : Type*) where
  result : β
  acc : σ
  halted : Bool
  visited : List α

namespace Rewritten

variable {α σ β γ : Type*}

def map (f : β → γ) (outcome : Rewritten α σ β) : Rewritten α σ γ :=
  ⟨f outcome.result, outcome.acc, outcome.halted, outcome.visited⟩

/-- The outcome of a rewriting that was handed other nodes before. -/
def after (before : List α) (outcome : Rewritten α σ β) : Rewritten α σ β :=
  ⟨outcome.result, outcome.acc, outcome.halted, before ++ outcome.visited⟩

end Rewritten

namespace Rewriter

variable {α σ : Type*} [Tree α] (v : Rewriter α σ)

/-- The children that a node is left with are smaller together than the node was. -/
theorem forestCount_children_lt {node node' : α} {acc acc' : σ}
    (happly : v.apply node acc = .proceed (node', acc')) :
    Tree.forestCount (Tree.children node') < Tree.nodeCount node :=
  (Tree.forestCount_children_lt node').trans_le (v.nodeCount_le happly)

mutual

/-- The rewriting of a tree: of its root, and then of the children that the root has by then. -/
def rewrite (node : α) (acc : σ) : Rewritten α σ α :=
  match _happly : v.apply node acc with
  | .halt (node', acc') => ⟨node', acc', true, [node]⟩
  | .skip (node', acc') => ⟨node', acc', false, [node]⟩
  | .proceed (node', acc') =>
      if (Tree.children node').isEmpty then
        ⟨node', acc', false, [node]⟩
      else
        let below := rewriteAll (Tree.children node') acc'
        ⟨Tree.rebuild node' below.result, below.acc, below.halted, node :: below.visited⟩
termination_by (Tree.nodeCount node, 0)
decreasing_by exact Prod.Lex.left _ _ (v.forestCount_children_lt _happly)

/-- The rewriting of siblings from left to right, up to where it is halted. -/
def rewriteAll (nodes : List α) (acc : σ) : Rewritten α σ (List α) :=
  match nodes with
  | [] => ⟨[], acc, false, []⟩
  | node :: nodes =>
      let first := rewrite node acc
      if first.halted then
        ⟨first.result :: nodes, first.acc, true, first.visited⟩
      else
        let others := rewriteAll nodes first.acc
        ⟨first.result :: others.result, others.acc, others.halted,
          first.visited ++ others.visited⟩
termination_by (Tree.forestCount nodes, 1)
decreasing_by
  · rw [Tree.forestCount_cons, Prod.lex_def]
    omega
  · rw [Tree.forestCount_cons, Prod.lex_def]
    have hpos := Tree.nodeCount_pos node
    omega

end

/-- What holds of a node as soon as it holds of the children that it may be left with holds of all
nodes. -/
theorem induction {motive : α → Prop}
    (hstep : ∀ node,
      (∀ acc node' acc', v.apply node acc = .proceed (node', acc') →
        ∀ child ∈ Tree.children node', motive child) → motive node)
    (node : α) : motive node := by
  induction hcount : Tree.nodeCount node using Nat.strongRecOn generalizing node with
  | _ count ih =>
      apply hstep
      intro acc node' acc' happly child hchild
      have hless : Tree.nodeCount child < Tree.nodeCount node :=
        (Tree.nodeCount_le_forestCount hchild).trans_lt (v.forestCount_children_lt happly)
      exact ih (Tree.nodeCount child) (hcount ▸ hless) child rfl

section Equations

variable {v} {node node' : α} {acc acc' : σ}

theorem rewrite_of_halt (happly : v.apply node acc = .halt (node', acc')) :
    v.rewrite node acc = ⟨node', acc', true, [node]⟩ := by
  rw [rewrite]
  split <;> simp_all

theorem rewrite_of_skip (happly : v.apply node acc = .skip (node', acc')) :
    v.rewrite node acc = ⟨node', acc', false, [node]⟩ := by
  rw [rewrite]
  split <;> simp_all

theorem rewrite_of_leaf (happly : v.apply node acc = .proceed (node', acc'))
    (hchildren : Tree.children node' = []) :
    v.rewrite node acc = ⟨node', acc', false, [node]⟩ := by
  rw [rewrite]
  split <;> simp_all

theorem rewrite_of_branch (happly : v.apply node acc = .proceed (node', acc'))
    (hchildren : Tree.children node' ≠ []) :
    v.rewrite node acc =
      ((v.rewriteAll (Tree.children node') acc').map (Tree.rebuild node')).after [node] := by
  rw [rewrite]
  split <;> simp_all [Rewritten.map, Rewritten.after]

theorem rewriteAll_nil : v.rewriteAll [] acc = ⟨[], acc, false, []⟩ := by
  rw [rewriteAll]

theorem rewriteAll_cons_of_halted (nodes : List α) (hhalted : (v.rewrite node acc).halted = true) :
    v.rewriteAll (node :: nodes) acc =
      ⟨(v.rewrite node acc).result :: nodes, (v.rewrite node acc).acc, true,
        (v.rewrite node acc).visited⟩ := by
  rw [rewriteAll, hhalted]
  rfl

theorem rewriteAll_cons (nodes : List α) (hhalted : (v.rewrite node acc).halted = false) :
    v.rewriteAll (node :: nodes) acc =
      ((v.rewriteAll nodes (v.rewrite node acc).acc).map ((v.rewrite node acc).result :: ·)).after
        (v.rewrite node acc).visited := by
  rw [rewriteAll, hhalted]
  rfl

end Equations

/-! ## The number of visits -/

theorem length_visited_rewriteAll {nodes : List α}
    (hnodes : ∀ node ∈ nodes, ∀ acc, (v.rewrite node acc).visited.length ≤ Tree.nodeCount node)
    (acc : σ) : (v.rewriteAll nodes acc).visited.length ≤ Tree.forestCount nodes := by
  induction nodes generalizing acc with
  | nil => rw [rewriteAll_nil, List.length_nil, Tree.forestCount_nil]
  | cons node nodes ih =>
      obtain ⟨hnode, hnodes⟩ := List.forall_mem_cons.mp hnodes
      have hfirst := hnode acc
      rw [Tree.forestCount_cons]
      cases hhalted : (v.rewrite node acc).halted with
      | true =>
          rw [rewriteAll_cons_of_halted nodes hhalted]
          exact hfirst.trans (Nat.le_add_right _ _)
      | false =>
          rw [rewriteAll_cons nodes hhalted, Rewritten.after, List.length_append]
          exact Nat.add_le_add hfirst (ih hnodes (v.rewrite node acc).acc)

/-- There are no more visits than nodes. -/
theorem length_visited_rewrite (node : α) (acc : σ) :
    (v.rewrite node acc).visited.length ≤ Tree.nodeCount node := by
  induction node using v.induction generalizing acc with
  | hstep node ih =>
      have hpos := Tree.nodeCount_pos node
      cases happly : v.apply node acc with
      | halt value =>
          rw [rewrite_of_halt happly]
          exact hpos
      | skip value =>
          rw [rewrite_of_skip happly]
          exact hpos
      | proceed value =>
          obtain ⟨node', acc'⟩ := value
          by_cases hchildren : Tree.children node' = []
          · rw [rewrite_of_leaf happly hchildren]
            exact hpos
          · rw [rewrite_of_branch happly hchildren, Rewritten.after, List.singleton_append,
              List.length_cons]
            have hbelow := v.length_visited_rewriteAll (ih acc node' acc' happly) acc'
            exact hbelow.trans_lt (v.forestCount_children_lt happly)

/-! ## The walk of a rewriter -/

/-- The visitor that has the node in focus rewritten. -/
def visit (z : Zipper α) (acc : σ) : Control (Zipper α × σ) :=
  (v.apply z.focus acc).map fun (node, acc) => (z.replace node, acc)

theorem recorded_visit (node : α) (path : List (Frame α)) (acc : σ) (seen : List α) :
    Zipper.recorded v.visit ⟨node, path⟩ (acc, seen) =
      (v.apply node acc).map fun (node', acc') => (⟨node', path⟩, (acc', seen ++ [node])) := by
  rw [Zipper.recorded, visit]
  cases v.apply node acc <;> rfl

/-- The walk from after a subtree in which the given nodes and those of its rewriting were seen. -/
def afterwards (visits : ℕ) (path : List (Frame α)) (seen : List α) (outcome : Rewritten α σ α) :
    Option (Zipper α × (σ × List α)) :=
  if outcome.halted then
    some (Zipper.top ⟨outcome.result, path⟩, (outcome.acc, seen ++ outcome.visited))
  else
    Zipper.resume (Zipper.recorded v.visit) visits ⟨outcome.result, path⟩
      (outcome.acc, seen ++ outcome.visited)

theorem afterwards_after (visits : ℕ) (path : List (Frame α)) (seen before : List α)
    (outcome : Rewritten α σ α) :
    v.afterwards visits path seen (outcome.after before) =
      v.afterwards visits path (seen ++ before) outcome := by
  rw [afterwards, afterwards, Rewritten.after, List.append_assoc]

/-- Wherever a node stands, the walk does with it and all below it what the recursion does. -/
def Follows (node : α) : Prop :=
  ∀ acc path seen visits,
    Zipper.walk (Zipper.recorded v.visit) (visits + (v.rewrite node acc).visited.length)
        ⟨node, path⟩ (acc, seen) =
      v.afterwards visits path seen (v.rewrite node acc)

section Siblings

variable {v} {node : α} {acc : σ} (visits : ℕ) (parent : α) (lefts others : List α)
variable (rest : List (Frame α)) (seen : List α)

theorem walk_of_halted (hnode : v.Follows node) (hhalted : (v.rewrite node acc).halted = true) :
    Zipper.walk (Zipper.recorded v.visit)
        (visits + (v.rewriteAll (node :: others) acc).visited.length)
        ⟨node, ⟨parent, .ofList lefts, .ofList others⟩ :: rest⟩ (acc, seen) =
      v.afterwards visits rest seen
        ((v.rewriteAll (node :: others) acc).map fun results =>
          Tree.rebuild parent (lefts.reverse ++ results)) := by
  rw [rewriteAll_cons_of_halted others hhalted, hnode, afterwards, afterwards, hhalted, if_pos rfl,
    Zipper.top, Zipper.root_child]
  rfl

theorem walk_of_not_halted (hnode : v.Follows node)
    (hhalted : (v.rewrite node acc).halted = false) :
    Zipper.walk (Zipper.recorded v.visit)
        (visits + (v.rewriteAll (node :: others) acc).visited.length)
        ⟨node, ⟨parent, .ofList lefts, .ofList others⟩ :: rest⟩ (acc, seen) =
      Zipper.resume (Zipper.recorded v.visit)
        (visits + (v.rewriteAll others (v.rewrite node acc).acc).visited.length)
        ⟨(v.rewrite node acc).result, ⟨parent, .ofList lefts, .ofList others⟩ :: rest⟩
        ((v.rewrite node acc).acc, seen ++ (v.rewrite node acc).visited) := by
  rw [rewriteAll_cons others hhalted, Rewritten.after, List.length_append,
    Nat.add_comm (v.rewrite node acc).visited.length, ← Nat.add_assoc, hnode, afterwards, hhalted,
    if_neg Bool.false_ne_true]
  rfl

end Siblings

/-- The siblings on the left are those that have been rewritten, and the recursion still has the
node in focus and the siblings on its right before it. -/
theorem walk_siblings {v : Rewriter α σ} (visits : ℕ) (parent : α) (rest : List (Frame α))
    {node : α} {others : List α} (hnodes : ∀ sibling ∈ node :: others, v.Follows sibling)
    (lefts : List α) (acc : σ) (seen : List α) :
    Zipper.walk (Zipper.recorded v.visit)
        (visits + (v.rewriteAll (node :: others) acc).visited.length)
        ⟨node, ⟨parent, .ofList lefts, .ofList others⟩ :: rest⟩ (acc, seen) =
      v.afterwards visits rest seen
        ((v.rewriteAll (node :: others) acc).map fun results =>
          Tree.rebuild parent (lefts.reverse ++ results)) := by
  induction others generalizing node lefts acc seen with
  | nil =>
      obtain ⟨hnode, -⟩ := List.forall_mem_cons.mp hnodes
      cases hhalted : (v.rewrite node acc).halted with
      | true => exact walk_of_halted visits parent lefts [] rest seen hnode hhalted
      | false =>
          rw [walk_of_not_halted visits parent lefts [] rest seen hnode hhalted, rewriteAll_nil,
            Zipper.resume_parent, rewriteAll_cons [] hhalted, rewriteAll_nil]
          simp only [afterwards, Rewritten.map, Rewritten.after, List.append_nil]
          rfl
  | cons sibling others ih =>
      obtain ⟨hnode, hothers⟩ := List.forall_mem_cons.mp hnodes
      cases hhalted : (v.rewrite node acc).halted with
      | true => exact walk_of_halted visits parent lefts (sibling :: others) rest seen hnode hhalted
      | false =>
          -- The result goes to the left, and the recursion goes on at the next sibling.
          rw [walk_of_not_halted visits parent lefts (sibling :: others) rest seen hnode hhalted,
            Zipper.resume_sibling, ih hothers, rewriteAll_cons (sibling :: others) hhalted,
            List.reverse_cons, ← afterwards_after]
          simp only [List.append_assoc, List.singleton_append]
          rfl

/-- The walk does what the recursion does at every node, since it does so at its children. -/
theorem follows [LawfulTree α] (node : α) : v.Follows node := by
  induction node using v.induction with
  | hstep node ih =>
      intro acc path seen visits
      have hvisit := v.recorded_visit node path acc seen
      cases happly : v.apply node acc with
      | halt value =>
          rw [happly] at hvisit
          rw [rewrite_of_halt happly]
          exact Zipper.walk_of_halt _ visits hvisit
      | skip value =>
          rw [happly] at hvisit
          rw [rewrite_of_skip happly]
          exact Zipper.walk_of_skip _ visits hvisit
      | proceed value =>
          obtain ⟨node', acc'⟩ := value
          rw [happly] at hvisit
          cases hchildren : Tree.children node' with
          | nil =>
              rw [rewrite_of_leaf happly hchildren]
              exact (Zipper.walk_of_proceed _ visits hvisit).trans
                (Zipper.advance_of_leaf _ visits _ (Zipper.down_eq_none_iff.mpr hchildren))
          | cons first others =>
              have hne : Tree.children node' ≠ [] := hchildren ▸ List.cons_ne_nil first others
              have hbelow := walk_siblings visits node' path
                (hchildren ▸ ih acc node' acc' happly) [] acc' (seen ++ [node])
              rw [rewrite_of_branch happly hne, hchildren, afterwards_after, Rewritten.after,
                List.length_append, Nat.add_comm [node].length, ← Nat.add_assoc]
              apply (Zipper.walk_of_proceed _ _ hvisit).trans
              rw [Zipper.advance_of_down _ _ _ (Zipper.down_of_children path hchildren)]
              exact hbelow

end Rewriter

/-! ## Traversals -/

namespace Zipper

variable {α σ : Type*} [Tree α] [LawfulTree α] (v : Rewriter α σ) (z : Zipper α) (acc : σ)

theorem traverseWhileWith_recorded_visit {visits : ℕ} (hvisits : Tree.nodeCount z.focus ≤ visits) :
    traverseWhileWith visits (recorded v.visit) (acc, []) z =
      some (z.replace (v.rewrite z.focus acc).result,
        ((v.rewrite z.focus acc).acc, (v.rewrite z.focus acc).visited)) := by
  have hlength := v.length_visited_rewrite z.focus acc
  obtain ⟨more, rfl⟩ := Nat.exists_eq_add_of_le' (hlength.trans hvisits)
  rw [traverseWhileWith_eq, ofTree, v.follows, Rewriter.afterwards, List.nil_append, resume_root]
  split <;> rfl

theorem traverseWhileWith_visit {visits : ℕ} (hvisits : Tree.nodeCount z.focus ≤ visits) :
    traverseWhileWith visits v.visit acc z =
      some (z.replace (v.rewrite z.focus acc).result, (v.rewrite z.focus acc).acc) :=
  traverseWhileWith_of_recorded (traverseWhileWith_recorded_visit v z acc hvisits)

/-- A visitor that keeps no accumulator but does else the same gives the same. -/
theorem traverseWhile_visit {visits : ℕ} (hvisits : Tree.nodeCount z.focus ≤ visits)
    {visit : Zipper α → Control (Zipper α)}
    (hvisit : ∀ w acc, (v.visit w acc).map Prod.fst = visit w) :
    traverseWhile visits visit z = some (z.replace (v.rewrite z.focus acc).result) := by
  have hproject : (traverseWhileWith visits v.visit acc z).map (fun outcome => (outcome.1, ())) =
      traverseWhileWith visits (fun w _ => (visit w).map fun w => (w, ())) () z := by
    apply traverseWhileWith_project fun _ => ()
    intro w acc
    rw [← hvisit w acc]
    cases v.visit w acc <;> rfl
  rw [traverseWhile, ← hproject, traverseWhileWith_visit v z acc hvisits]
  rfl

/-- A traversal of the subtree in focus ends, rewrites it as the recursion does and leaves the path
to it alone. The visitor is handed the nodes of the recursion in their order. The same is true of
the traversals that never skip or halt, or that keep no accumulator, if the rewriter does not. -/
theorem traversals_eq_rewrite {visits : ℕ} (hvisits : Tree.nodeCount z.focus ≤ visits) :
    traverseWhileWith visits v.visit acc z =
      some (z.replace (v.rewrite z.focus acc).result, (v.rewrite z.focus acc).acc) ∧
    traverseWhileWith visits (recorded v.visit) (acc, []) z =
      some (z.replace (v.rewrite z.focus acc).result,
        ((v.rewrite z.focus acc).acc, (v.rewrite z.focus acc).visited)) ∧
    (∀ change : α → σ → α × σ, (∀ node acc, v.apply node acc = .proceed (change node acc)) →
      traverseWith visits
          (fun w acc => (w.replace (change w.focus acc).1, (change w.focus acc).2)) acc z =
        some (z.replace (v.rewrite z.focus acc).result, (v.rewrite z.focus acc).acc)) ∧
    (∀ change : α → Control α,
      (∀ node acc, v.apply node acc = (change node).map fun node' => (node', acc)) →
      traverseWhile visits (fun w => (change w.focus).map w.replace) z =
        some (z.replace (v.rewrite z.focus acc).result)) ∧
    (∀ change : α → α, (∀ node acc, v.apply node acc = .proceed (change node, acc)) →
      traverse visits (fun w => w.update change) z =
        some (z.replace (v.rewrite z.focus acc).result)) := by
  have hvisit := traverseWhileWith_visit v z acc hvisits
  refine ⟨hvisit, traverseWhileWith_recorded_visit v z acc hvisits, ?_, ?_, ?_⟩
  · intro change hchange
    have heq : v.visit = fun w acc =>
        .proceed (w.replace (change w.focus acc).1, (change w.focus acc).2) := by
      funext w acc
      rw [Rewriter.visit, hchange]
      rfl
    rw [heq] at hvisit
    exact (traverseWith_eq _ visits acc z).trans hvisit
  · intro change hchange
    apply traverseWhile_visit v z acc hvisits
    intro w acc
    rw [Rewriter.visit, hchange]
    cases change w.focus <;> rfl
  · intro edit hedit
    rw [traverse, traverseWith_eq]
    change traverseWhile visits (fun w => .proceed (w.update edit)) z = _
    apply traverseWhile_visit v z acc hvisits
    intro w acc
    rw [Rewriter.visit, hedit]
    rfl

/-- Makes blocks of lists, passes over calls and ends at an atom. -/
def untilAtom : Rewriter Term ℕ where
  apply node acc :=
    match node with
    | .list items => .proceed (.block items, acc + 1)
    | .call tag _ => .skip (.call tag [.block []], acc + 1)
    | .atom name => .halt (.str name, acc + 1)
    | _ => .proceed (node, acc + 1)
  nodeCount_le := by
    intro node node' acc acc' happly
    cases node <;> cases happly <;> exact le_rfl

def blankLeaf (node : Document) : Document :=
  if Tree.isBranch node then node else .null

/-- Puts null in place of everything but arrays and objects. -/
def blankLeaves : Rewriter Document Unit where
  apply node acc := .proceed (blankLeaf node, acc)
  nodeCount_le := by
    intro node node' acc acc' happly
    cases happly
    unfold blankLeaf
    split
    · exact le_rfl
    · exact Tree.nodeCount_pos node

/-- A list is rewritten to where its atom stands.  In an object the key of an entry gives way too,
and so the object becomes an array. -/
theorem traversals_eq_rewrite_of_list_and_object :
    (Tree.nodeCount (Term.list [.call "f" [], .atom "x", .int 2]) ≤ 4 ∧
      (untilAtom.rewrite (.list [.call "f" [], .atom "x", .int 2]) 0).result =
        .block [.call "f" [.block []], .str "x", .int 2] ∧
      (untilAtom.rewrite (.list [.call "f" [], .atom "x", .int 2]) 0).visited =
        [.list [.call "f" [], .atom "x", .int 2], .call "f" [], .atom "x"] ∧
      traverseWhileWith 4 untilAtom.visit 0
          ⟨.list [.call "f" [], .atom "x", .int 2], [⟨.block [], .ofList [.int 7], .ofList []⟩]⟩ =
        some (⟨.block [.call "f" [.block []], .str "x", .int 2],
          [⟨.block [], .ofList [.int 7], .ofList []⟩]⟩, 3)) ∧
    (Tree.nodeCount (Document.object ⟨[("a", .bool true)], by decide⟩) ≤ 4 ∧
      (blankLeaves.rewrite (.object ⟨[("a", .bool true)], by decide⟩) ()).result =
        .array [.array [.null, .null]] ∧
      traverse 4 (fun w => w.update blankLeaf)
          (ofTree (Document.object ⟨[("a", .bool true)], by decide⟩)) =
        some (ofTree (.array [.array [.null, .null]]))) := by
  have hlist : Tree.nodeCount (Term.list [.call "f" [], .atom "x", .int 2]) ≤ 4 := by decide
  have hobject : Tree.nodeCount (Document.object ⟨[("a", .bool true)], by decide⟩) ≤ 4 := by decide
  obtain ⟨hwith, hrecorded, -⟩ := traversals_eq_rewrite untilAtom
    ⟨_, [⟨.block [], .ofList [.int 7], .ofList []⟩]⟩ 0 hlist
  obtain ⟨-, -, -, -, htraverse⟩ := traversals_eq_rewrite blankLeaves (ofTree _) () hobject
  have hrun := Option.some.inj hrecorded
  have hresult : (untilAtom.rewrite (.list [.call "f" [], .atom "x", .int 2]) 0).result =
      .block [.call "f" [.block []], .str "x", .int 2] :=
    congrArg (fun outcome => outcome.1.focus) hrun.symm
  have hacc : (untilAtom.rewrite (.list [.call "f" [], .atom "x", .int 2]) 0).acc = 3 :=
    congrArg (fun outcome => outcome.2.1) hrun.symm
  have hblank := htraverse blankLeaf fun _ _ => rfl
  have harray : (blankLeaves.rewrite (.object ⟨[("a", .bool true)], by decide⟩) ()).result =
      .array [.array [.null, .null]] :=
    congrArg focus (Option.some.inj hblank.symm)
  refine ⟨⟨hlist, hresult, congrArg (fun outcome => outcome.2.2) hrun.symm, ?_⟩,
    hobject, harray, ?_⟩
  · rw [hwith, hresult, hacc]
    rfl
  · exact hblank.trans (congrArg (fun node => some (ofTree node)) harray)

end Zipper

end TreeCursor
