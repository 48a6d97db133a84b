/-!
# Sets of code points as sorted ranges

Membership by binary search in a table of disjoint closed ranges in increasing order.
-/

namespace TreeCursor.Text

/-- Whether ranges are in order, each with a gap before the next. -/
def increasing : List (Nat × Nat) → Bool
  | [] => true
  | [(first, last)] => first ≤ last
  | (first, last) :: (first', last') :: rest =>
      first ≤ last && last + 1 < first' && increasing ((first', last') :: rest)

/-- The search in the entries from `lo` up to but not including `hi`. -/
def searchRanges (table : Array (Nat × Nat)) (code lo hi : Nat) : Bool :=
  if lo < hi then
    let mid := (lo + hi) / 2
    match table[mid]? with
    | none => false
    | some (first, last) =>
        if code < first then searchRanges table code lo mid
        else if last < code then searchRanges table code (mid + 1) hi
        else true
  else
    false
termination_by hi - lo

/-- Whether one of the ranges holds the code point. -/
def inRanges (table : Array (Nat × Nat)) (code : Nat) : Bool :=
  searchRanges table code 0 table.size

end TreeCursor.Text
