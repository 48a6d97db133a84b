import TreeCursor.Proofs.Zipper.Adjacent
import TreeCursor.Zipper.Traverse

/-!
# Walks of a visitor

What every visitor's walk has in common.  A walk that has dealt with a subtree resumes at the next
place that is not below it, which is the next sibling, or else the place where the walk resumes
after the parent.  A walk ends at a root, so that it makes no difference whether a traversal starts
there, and the visitor that decides nothing walks as the one that always goes on.  A walk does not
depend on what the accumulator carries along, so that the nodes that a visitor is handed can be
recorded in it.
-/

namespace TreeCursor.Zipper

variable {α σ τ : Type*} [Tree α]

/-- The visitor that also records the nodes that it is handed, in the order of its calls. -/
def recorded (visit : Zipper α → σ → Control (Zipper α × σ)) (z : Zipper α)
    (state : σ × List α) : Control (Zipper α × (σ × List α)) :=
  (visit z state.1).map fun (w, acc) => (w, (acc, state.2 ++ [z.focus]))

/-- The walk from after the node in focus, below which it goes first. -/
def advance (visit : Zipper α → σ → Control (Zipper α × σ)) (visits : ℕ) (z : Zipper α) (acc : σ) :
    Option (Zipper α × σ) :=
  match z.next with
  | some position => walk visit visits position acc
  | none => some (z.top, acc)

/-- The walk from after the subtree in focus. -/
def resume (visit : Zipper α → σ → Control (Zipper α × σ)) (visits : ℕ) (z : Zipper α) (acc : σ) :
    Option (Zipper α × σ) :=
  match z.skip .next with
  | some position => walk visit visits position acc
  | none => some (z.top, acc)

section Steps

variable (visit : Zipper α → σ → Control (Zipper α × σ)) (visits : ℕ)

theorem walk_of_proceed {z w : Zipper α} {acc acc' : σ}
    (hvisit : visit z acc = .proceed (w, acc')) :
    walk visit (visits + 1) z acc = advance visit visits w acc' := by
  rw [walk, hvisit]
  rfl

theorem walk_of_skip {z w : Zipper α} {acc acc' : σ} (hvisit : visit z acc = .skip (w, acc')) :
    walk visit (visits + 1) z acc = resume visit visits w acc' := by
  rw [walk, hvisit]
  rfl

theorem walk_of_halt {z w : Zipper α} {acc acc' : σ} (hvisit : visit z acc = .halt (w, acc')) :
    walk visit (visits + 1) z acc = some (w.top, acc') := by
  rw [walk, hvisit]

theorem advance_of_down {z child : Zipper α} (acc : σ) (hdown : z.down = some child) :
    advance visit visits z acc = walk visit visits child acc := by
  rw [advance, next, hdown]

/-- Where there are no children the walk is done with the subtree. -/
theorem advance_of_leaf {z : Zipper α} (acc : σ) (hdown : z.down = none) :
    advance visit visits z acc = resume visit visits z acc := by
  rw [advance, next, hdown]
  rfl

theorem resume_root (node : α) (acc : σ) :
    resume visit visits ⟨node, []⟩ acc = some (⟨node, []⟩, acc) := rfl

theorem resume_sibling (node parent sibling : α) (lefts rights : List α) (rest : List (Frame α))
    (acc : σ) :
    resume visit visits ⟨node, ⟨parent, .ofList lefts, .ofList (sibling :: rights)⟩ :: rest⟩ acc =
      walk visit visits ⟨sibling, ⟨parent, .ofList (node :: lefts), .ofList rights⟩ :: rest⟩
        acc := rfl

theorem resume_parent (node parent : α) (lefts : List α) (rest : List (Frame α)) (acc : σ) :
    resume visit visits ⟨node, ⟨parent, .ofList lefts, .ofList []⟩ :: rest⟩ acc =
      resume visit visits ⟨Tree.rebuild parent (lefts.reverse ++ [node]), rest⟩ acc := by
  rw [resume, resume, skip_next_last, top, root_child]
  rfl

/-- A walk that has come to the last place of a subtree is done with that subtree. -/
theorem resume_deepestRightmost [LawfulTree α] (z : Zipper α) (acc : σ) :
    resume visit visits z.deepestRightmost acc = resume visit visits z acc := by
  rw [resume, skip_deepestRightmost, top, root_of_reaches (reaches_deepestRightmost z)]
  rfl

theorem advance_deepestRightmost [LawfulTree α] (z : Zipper α) (acc : σ) :
    advance visit visits z.deepestRightmost acc = resume visit visits z acc := by
  rw [advance_of_leaf visit visits acc (down_deepestRightmost z), resume_deepestRightmost]

end Steps

/-! ## Both kinds of walk -/

section Kinds

/-- However a walk ends, it leaves the cursor at a root. -/
theorem path_of_walk {visit : Zipper α → σ → Control (Zipper α × σ)} {visits : ℕ}
    {z w : Zipper α} {acc acc' : σ} (hwalk : walk visit visits z acc = some (w, acc')) :
    w.path = [] := by
  induction visits generalizing z acc with
  | zero => cases hwalk
  | succ visits ih =>
      cases hcontrol : visit z acc with
      | proceed value =>
          obtain ⟨v, acc⟩ := value
          rw [walk_of_proceed visit visits hcontrol, advance] at hwalk
          split at hwalk
          · exact ih hwalk
          · cases hwalk
            rfl
      | skip value =>
          obtain ⟨v, acc⟩ := value
          rw [walk_of_skip visit visits hcontrol, resume] at hwalk
          split at hwalk
          · exact ih hwalk
          · cases hwalk
            rfl
      | halt value =>
          obtain ⟨v, acc⟩ := value
          rw [walk_of_halt visit visits hcontrol] at hwalk
          cases hwalk
          rfl

/-- At the root the walk gives the whole tree, and to put it in place of the focus changes nothing
about that. -/
theorem traverseWhileWith_eq (visit : Zipper α → σ → Control (Zipper α × σ)) (visits : ℕ) (acc : σ)
    (z : Zipper α) :
    traverseWhileWith visits visit acc z =
      (walk visit visits (ofTree z.focus) acc).map
        fun (done, acc) => (z.replace done.focus, acc) := by
  rw [traverseWhileWith, withSubtree]
  split
  · next hroot =>
      obtain ⟨node, path⟩ := z
      obtain rfl : path = [] := List.isEmpty_iff.mp hroot
      change walk visit visits (ofTree node) acc = _
      cases hwalk : walk visit visits (ofTree node) acc with
      | none => rfl
      | some outcome =>
          obtain ⟨⟨node', path'⟩, acc'⟩ := outcome
          obtain rfl : path' = [] := path_of_walk hwalk
          rfl
  · rfl

/-- A visitor that decides nothing walks as the one that goes on after every visit. -/
theorem walkAll_eq_walk (visit : Zipper α → σ → Zipper α × σ) (visits : ℕ) (z : Zipper α)
    (acc : σ) :
    walkAll visit visits z acc = walk (fun w acc => .proceed (visit w acc)) visits z acc := by
  induction visits generalizing z acc with
  | zero => rfl
  | succ visits ih =>
      cases hvisit : visit z acc with
      | mk w acc' =>
          have hproceed : Control.proceed (visit z acc) = .proceed (w, acc') := by rw [hvisit]
          rw [walk_of_proceed (fun w acc => .proceed (visit w acc)) visits hproceed, advance,
            walkAll, hvisit]
          dsimp only
          cases w.next with
          | none => rfl
          | some position => exact ih position acc'

theorem traverseWith_eq (visit : Zipper α → σ → Zipper α × σ) (visits : ℕ) (acc : σ)
    (z : Zipper α) :
    traverseWith visits visit acc z =
      traverseWhileWith visits (fun w acc => .proceed (visit w acc)) acc z :=
  congrArg z.withSubtree (funext fun start => walkAll_eq_walk visit visits start acc)

end Kinds

/-! ## What the accumulator carries along -/

section Project

variable {visit : Zipper α → σ → Control (Zipper α × σ)}
variable {visit' : Zipper α → τ → Control (Zipper α × τ)}

theorem walk_project (project : σ → τ)
    (hvisit : ∀ z acc,
      (visit z acc).map (fun (w, acc) => (w, project acc)) = visit' z (project acc))
    (visits : ℕ) (z : Zipper α) (acc : σ) :
    (walk visit visits z acc).map (fun (w, acc) => (w, project acc)) =
      walk visit' visits z (project acc) := by
  induction visits generalizing z acc with
  | zero => rfl
  | succ visits ih =>
      have hvisit' := hvisit z acc
      cases hcontrol : visit z acc with
      | proceed value =>
          obtain ⟨w, acc'⟩ := value
          rw [hcontrol] at hvisit'
          rw [walk_of_proceed visit visits hcontrol, walk_of_proceed visit' visits hvisit'.symm]
          rw [advance, advance]
          cases w.next with
          | none => rfl
          | some position => exact ih position acc'
      | skip value =>
          obtain ⟨w, acc'⟩ := value
          rw [hcontrol] at hvisit'
          rw [walk_of_skip visit visits hcontrol, walk_of_skip visit' visits hvisit'.symm,
            resume, resume]
          cases w.skip .next with
          | none => rfl
          | some position => exact ih position acc'
      | halt value =>
          obtain ⟨w, acc'⟩ := value
          rw [hcontrol] at hvisit'
          rw [walk_of_halt visit visits hcontrol, walk_of_halt visit' visits hvisit'.symm]
          rfl

theorem traverseWhileWith_project (project : σ → τ)
    (hvisit : ∀ z acc,
      (visit z acc).map (fun (w, acc) => (w, project acc)) = visit' z (project acc))
    (visits : ℕ) (acc : σ) (z : Zipper α) :
    (traverseWhileWith visits visit acc z).map (fun (w, acc) => (w, project acc)) =
      traverseWhileWith visits visit' (project acc) z := by
  rw [traverseWhileWith_eq, traverseWhileWith_eq, ← walk_project project hvisit, Option.map_map,
    Option.map_map]
  rfl

end Project

/-- Recording the visits does not change the walk. -/
theorem traverseWhileWith_recorded (visit : Zipper α → σ → Control (Zipper α × σ)) (visits : ℕ)
    (state : σ × List α) (z : Zipper α) :
    (traverseWhileWith visits (recorded visit) state z).map (fun (w, state) => (w, state.1)) =
      traverseWhileWith visits visit state.1 z := by
  apply traverseWhileWith_project Prod.fst
  intro w state
  rw [recorded]
  cases visit w state.1 <;> rfl

theorem traverseWhileWith_of_recorded {visit : Zipper α → σ → Control (Zipper α × σ)} {visits : ℕ}
    {acc acc' : σ} {seen : List α} {z w : Zipper α}
    (hrecorded : traverseWhileWith visits (recorded visit) (acc, []) z = some (w, (acc', seen))) :
    traverseWhileWith visits visit acc z = some (w, acc') := by
  rw [← traverseWhileWith_recorded visit visits (acc, []), hrecorded]
  rfl

end TreeCursor.Zipper
