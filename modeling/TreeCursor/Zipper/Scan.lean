import TreeCursor.Zipper.Basic

/-!
# Scans in pre-order

The positions of a tree in pre-order, forward and backward from the cursor.  A step forward goes
to the first child, else to the next sibling of the nearest position that has one; a step backward
undoes it.  Each direction has a measure, the number of positions still to come, which every step
decreases.
-/

namespace TreeCursor

universe u

/-- The two ways through a pre-order. -/
inductive Direction where
  | next
  | prev
  deriving DecidableEq, Repr

namespace Zipper

variable {α : Type u}

/-- The sibling in the given direction. -/
def sibling (dir : Direction) (z : Zipper α) : Option (Zipper α) :=
  match dir with
  | .next => z.right
  | .prev => z.left

variable [Tree α]

/-- The sibling in the given direction of the node, or else of its nearest ancestor with one. -/
def skipFrom (dir : Direction) : α → List (Frame α) → Option (Zipper α)
  | _, [] => none
  | node, frame :: rest =>
      match sibling dir ⟨node, frame :: rest⟩ with
      | some z => some z
      | none => skipFrom dir (frame.fill node) rest

/-- The nearest position in the given direction that is neither below the focus nor above it. -/
def skip (dir : Direction) (z : Zipper α) : Option (Zipper α) :=
  skipFrom dir z.focus z.path

/-- The next position in pre-order. -/
def next (z : Zipper α) : Option (Zipper α) :=
  match z.down with
  | some child => some child
  | none => z.skip .next

/-- The previous position in pre-order. -/
def prev (z : Zipper α) : Option (Zipper α) :=
  match z.left with
  | some sibling => some sibling.deepestRightmost
  | none => z.up

/-- One position on in the given direction. -/
def step (dir : Direction) (z : Zipper α) : Option (Zipper α) :=
  match dir with
  | .next => z.next
  | .prev => z.prev

/-- The number of nodes in the subtrees to the right of a path. -/
def pathAhead (path : List (Frame α)) : Nat :=
  (path.map fun frame => Tree.forestCount frame.right.toList).sum

/-- The number of positions after the cursor. -/
def ahead (z : Zipper α) : Nat :=
  Tree.forestCount (Tree.children z.focus) + pathAhead z.path

/-- The number of nodes on a path and in the subtrees to its left. -/
def pathBehind (path : List (Frame α)) : Nat :=
  (path.map fun frame => 1 + Tree.forestCount frame.left.toList).sum

/-- The number of positions before the cursor. -/
def behind (z : Zipper α) : Nat :=
  pathBehind z.path

/-- The number of positions that lie in the given direction. -/
def remaining (dir : Direction) (z : Zipper α) : Nat :=
  match dir with
  | .next => z.ahead
  | .prev => z.behind

@[simp]
theorem pathAhead_cons (frame : Frame α) (path : List (Frame α)) :
    pathAhead (frame :: path) = Tree.forestCount frame.right.toList + pathAhead path := by
  simp [pathAhead]

@[simp]
theorem pathBehind_cons (frame : Frame α) (path : List (Frame α)) :
    pathBehind (frame :: path) = 1 + Tree.forestCount frame.left.toList + pathBehind path := by
  simp [pathBehind]

theorem forestCount_of_pop? {s t : Siblings α} {x : α} (h : s.pop? = some (x, t)) :
    Tree.forestCount s.toList = Tree.nodeCount x + Tree.forestCount t.toList := by
  rw [Siblings.pop?_eq_some_iff.mp h, Tree.forestCount_cons]

theorem ahead_down {z child : Zipper α} (h : z.down = some child) : child.ahead < z.ahead := by
  simp only [down] at h
  split at h
  · split at h
    · contradiction
    · next first others hc =>
        cases h
        simp only [ahead, hc, pathAhead_cons, Tree.forestCount_cons, Siblings.toList_ofList,
          Tree.nodeCount_eq_forestCount first]
        omega
  · contradiction

theorem ahead_right {z w : Zipper α} (h : z.right = some w) : w.ahead < pathAhead z.path := by
  rcases z with ⟨focus, _ | ⟨frame, rest⟩⟩
  · simp [right] at h
  · simp only [right] at h
    split at h
    · contradiction
    · next node others hp =>
        cases h
        simp only [ahead, pathAhead_cons, forestCount_of_pop? hp,
          Tree.nodeCount_eq_forestCount node]
        omega

theorem ahead_skipFrom {node : α} {path : List (Frame α)} {w : Zipper α}
    (h : skipFrom .next node path = some w) : w.ahead < pathAhead path := by
  induction path generalizing node with
  | nil => simp [skipFrom] at h
  | cons frame rest ih =>
      simp only [skipFrom] at h
      split at h
      · next z hz =>
          cases h
          exact ahead_right (z := ⟨node, frame :: rest⟩) hz
      · have := ih h
        simp only [pathAhead_cons]
        omega

theorem ahead_next {z w : Zipper α} (h : z.next = some w) : w.ahead < z.ahead := by
  simp only [next] at h
  split at h
  · next child hd =>
      cases h
      exact ahead_down hd
  · have : w.ahead < pathAhead z.path := ahead_skipFrom h
    simp only [ahead] at *
    omega

theorem behind_rightmost (z : Zipper α) :
    z.rightmost.behind + Tree.nodeCount z.rightmost.focus =
      z.behind + Tree.nodeCount z.focus + Tree.forestCount z.rights := by
  rcases z with ⟨focus, _ | ⟨frame, rest⟩⟩
  · simp [rightmost, rights]
  · simp only [rightmost, rights]
    split
    · next hr =>
        simp only [List.reverse_eq_nil_iff] at hr
        simp [hr]
    · next last between hr =>
        have hsum := congrArg Tree.forestCount hr
        simp only [Tree.forestCount_reverse, Tree.forestCount_cons] at hsum
        simp only [behind, pathBehind_cons, Siblings.toList_ofList, Tree.forestCount_append,
          Tree.forestCount_cons]
        omega

theorem behind_down {z child : Zipper α} (h : z.down = some child) :
    child.behind + Tree.nodeCount child.focus + Tree.forestCount child.rights =
      z.behind + Tree.nodeCount z.focus := by
  simp only [down] at h
  split at h
  · split at h
    · contradiction
    · next first others hc =>
        cases h
        simp only [behind, pathBehind_cons, rights, Siblings.toList_ofList, Siblings.toList_empty,
          Tree.forestCount_nil, Tree.nodeCount_eq_forestCount z.focus, hc, Tree.forestCount_cons]
        omega
  · contradiction

theorem behind_deepestRightmost (z : Zipper α) :
    z.deepestRightmost.behind + Tree.nodeCount z.deepestRightmost.focus =
      z.behind + Tree.nodeCount z.focus := by
  fun_induction deepestRightmost z with
  | case1 => rfl
  | case2 z child hd ih =>
      rw [ih, behind_rightmost, behind_down hd]

theorem behind_prev {z w : Zipper α} (h : z.prev = some w) : w.behind < z.behind := by
  rcases z with ⟨focus, _ | ⟨frame, rest⟩⟩
  · simp [prev, left, up] at h
  · simp only [prev, left] at h
    split at h
    · next sibling hs =>
        cases h
        split at hs
        · contradiction
        · next node others hp =>
            cases hs
            have hd := behind_deepestRightmost
              (⟨node, ⟨frame.parent, others, frame.right.push focus⟩ :: rest⟩ : Zipper α)
            have hpos := Tree.nodeCount_pos (deepestRightmost
              (⟨node, ⟨frame.parent, others, frame.right.push focus⟩ :: rest⟩ : Zipper α)).focus
            simp only [behind, pathBehind_cons, forestCount_of_pop? hp] at *
            omega
    · simp only [up] at h
      cases h
      simp only [behind, pathBehind_cons]
      omega

theorem remaining_step {dir : Direction} {z w : Zipper α} (h : z.step dir = some w) :
    w.remaining dir < z.remaining dir := by
  cases dir with
  | next => exact ahead_next h
  | prev => exact behind_prev h

/-- The cursor and all positions in the given direction, nearest first. -/
def scan (dir : Direction) (z : Zipper α) : List (Zipper α) :=
  z :: match _h : z.step dir with
    | none => []
    | some w => w.scan dir
termination_by z.remaining dir
decreasing_by exact remaining_step _h

/-- The cursor and all positions after it. -/
def positions (z : Zipper α) : List (Zipper α) :=
  z.scan .next

/-- The nodes from the cursor to the end of the tree. -/
def nodes (z : Zipper α) : List α :=
  z.positions.map focus

/-- The first position of a scan whose node satisfies the condition; the cursor comes first. -/
def find (dir : Direction) (p : α → Bool) (z : Zipper α) : Option (Zipper α) :=
  if p z.focus then
    some z
  else
    match _h : z.step dir with
    | none => none
    | some w => w.find dir p
termination_by z.remaining dir
decreasing_by exact remaining_step _h

end Zipper

end TreeCursor
