import TreeCursor.Zipper.Edit
import TreeCursor.Zipper.Scan

/-!
# Traversals

A traversal walks a subtree in pre-order and hands every position to a visitor, which may move and
edit at will; the walk goes on from wherever the visitor leaves the cursor.  Such a walk need not
end, so it is given a number of visits and answers `none` when they do not suffice.
-/

namespace TreeCursor

universe u v

/-- What a visitor decides about the rest of the walk. -/
inductive Control (β : Type u) where
  /-- Go on to the next position. -/
  | proceed (value : β)
  /-- Go on after the subtree in focus. -/
  | skip (value : β)
  /-- End the walk here. -/
  | halt (value : β)
  deriving DecidableEq, Repr

def Control.map {β : Type u} {γ : Type v} (f : β → γ) : Control β → Control γ
  | .proceed value => .proceed (f value)
  | .skip value => .skip (f value)
  | .halt value => .halt (f value)

namespace Zipper

variable {α : Type u} {σ : Type v} [Tree α]

/-- The walk from a position to the end of its tree, in at most the given number of visits. -/
def walk (visit : Zipper α → σ → Control (Zipper α × σ)) :
    Nat → Zipper α → σ → Option (Zipper α × σ)
  | 0, _, _ => none
  | visits + 1, z, acc =>
      match visit z acc with
      | .proceed (w, acc) =>
          match w.next with
          | some position => walk visit visits position acc
          | none => some (w.top, acc)
      | .skip (w, acc) =>
          match w.skip .next with
          | some position => walk visit visits position acc
          | none => some (w.top, acc)
      | .halt (w, acc) => some (w.top, acc)

/-- The walk of a visitor that decides nothing: every position is visited. -/
def walkAll (visit : Zipper α → σ → Zipper α × σ) : Nat → Zipper α → σ → Option (Zipper α × σ)
  | 0, _, _ => none
  | visits + 1, z, acc =>
      let (w, acc) := visit z acc
      match w.next with
      | some position => walkAll visit visits position acc
      | none => some (w.top, acc)

/-- The outcome of a walk over the subtree in focus as if it were a whole tree.  What the walk makes
of it takes the place of the focus. -/
def withSubtree (walked : Zipper α → Option (Zipper α × σ)) (z : Zipper α) :
    Option (Zipper α × σ) :=
  if z.isRoot then
    walked z
  else
    (walked (ofTree z.focus)).map fun (done, acc) => (z.replace done.focus, acc)

/-- The walk through the subtree in focus, with an accumulator. -/
def traverseWhileWith (visits : Nat) (visit : Zipper α → σ → Control (Zipper α × σ)) (acc : σ)
    (z : Zipper α) : Option (Zipper α × σ) :=
  z.withSubtree fun start => walk visit visits start acc

/-- The walk with an accumulator that visits every position. -/
def traverseWith (visits : Nat) (visit : Zipper α → σ → Zipper α × σ) (acc : σ)
    (z : Zipper α) : Option (Zipper α × σ) :=
  z.withSubtree fun start => walkAll visit visits start acc

/-- The walk without an accumulator. -/
def traverseWhile (visits : Nat) (visit : Zipper α → Control (Zipper α)) (z : Zipper α) :
    Option (Zipper α) :=
  (traverseWhileWith visits (fun w _ => (visit w).map fun w => (w, ())) () z).map Prod.fst

/-- The walk without an accumulator that visits every position. -/
def traverse (visits : Nat) (visit : Zipper α → Zipper α) (z : Zipper α) : Option (Zipper α) :=
  (traverseWith visits (fun w _ => (visit w, ())) () z).map Prod.fst

end Zipper

end TreeCursor
