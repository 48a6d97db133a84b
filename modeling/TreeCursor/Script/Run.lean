import TreeCursor.Script.Basic
import TreeCursor.Zipper.Scan

/-!
# Running scripts

A script moves a cursor step by step and fails at the first move that has no target.
-/

namespace TreeCursor

universe u

/-- The first move of a script without a target: the number of its step, counted from one, and how
often the step had been made by then. -/
structure RunError where
  position : Nat
  move : Move
  completed : Nat
  deriving DecidableEq, Repr

def RunError.message (error : RunError) : String :=
  "move " ++ toString error.position ++ " (`" ++ String.ofList error.move.word ++
    "`) has no target after " ++ toString error.completed ++ " repetition(s)"

variable {α : Type u} [Tree α]

/-- The target of a move; the jumps always have one. -/
def Move.apply (move : Move) (z : Zipper α) : Option (Zipper α) :=
  match move with
  | .down => z.down
  | .up => z.up
  | .left => z.left
  | .right => z.right
  | .leftmost => some z.leftmost
  | .rightmost => some z.rightmost
  | .next => z.next
  | .prev => z.prev
  | .top => some z.top

namespace Script

/-- A move made a number of times more, or else how often it was made in all. -/
def repeatMove (move : Move) : (times completed : Nat) → Zipper α → Except Nat (Zipper α)
  | 0, _, z => .ok z
  | times + 1, completed, z =>
      match move.apply z with
      | none => .error completed
      | some w => repeatMove move times (completed + 1) w

/-- The steps from the given number on. -/
def runFrom (position : Nat) : List Step → Zipper α → Except RunError (Zipper α)
  | [], z => .ok z
  | step :: steps, z =>
      match repeatMove step.move step.times 0 z with
      | .error completed => .error ⟨position, step.move, completed⟩
      | .ok w => runFrom (position + 1) steps w

/-- The cursor after all steps. -/
def run (steps : List Step) (z : Zipper α) : Except RunError (Zipper α) :=
  runFrom 1 steps z

end Script

end TreeCursor
