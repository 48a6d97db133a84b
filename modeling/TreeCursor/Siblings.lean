/-!
# Sibling sequences

A sequence that is pushed and popped at one end and knows its length without a walk.  Pushing and
popping leave the old sequence as it was, so that many cursors can share their tails; every tail
keeps its own length, which is there again once all that was pushed on it is popped.
-/

namespace TreeCursor

universe u

/-- An item on top of a sequence, and the length that is kept with that sequence. -/
structure Siblings.Cell (α : Type u) where
  item : α
  below : Nat

/-- Each length is one more than the length that is kept below. -/
def Siblings.Sized {α : Type u} : List (Cell α) → Nat → Prop
  | [], length => length = 0
  | cell :: cells, length => length = cell.below + 1 ∧ Sized cells cell.below

/-- A stack of siblings with its length beside it. -/
structure Siblings (α : Type u) where
  cells : List (Siblings.Cell α)
  length : Nat
  sized : Siblings.Sized cells length

namespace Siblings

variable {α : Type u}

def empty : Siblings α := ⟨[], 0, rfl⟩

def isEmpty (s : Siblings α) : Bool :=
  s.cells.isEmpty

def push (s : Siblings α) (x : α) : Siblings α :=
  ⟨⟨x, s.length⟩ :: s.cells, s.length + 1, rfl, s.sized⟩

/-- The item pushed last and the sequence below it. -/
def pop? : Siblings α → Option (α × Siblings α)
  | ⟨[], _, _⟩ => none
  | ⟨cell :: cells, _, h⟩ => some (cell.item, ⟨cells, cell.below, h.2⟩)

/-- The sequence whose first item to be popped is the first of the list. -/
def ofList (items : List α) : Siblings α :=
  items.foldr (fun x s => s.push x) empty

def toList (s : Siblings α) : List α :=
  s.cells.map Cell.item

@[simp]
theorem toList_empty : (empty : Siblings α).toList = [] := rfl

@[simp]
theorem toList_push (s : Siblings α) (x : α) : (s.push x).toList = x :: s.toList := rfl

@[simp]
theorem toList_ofList (items : List α) : (ofList items).toList = items := by
  induction items with
  | nil => rfl
  | cons x items ih => exact congrArg (x :: ·) ih

/-- The lengths are determined by the items. -/
theorem cells_injective {cells others : List (Cell α)} {m n : Nat} (hcells : Sized cells m)
    (hothers : Sized others n) (h : cells.map Cell.item = others.map Cell.item) :
    cells = others ∧ m = n := by
  induction cells generalizing others m n with
  | nil =>
      cases others with
      | nil => exact ⟨rfl, hcells.trans hothers.symm⟩
      | cons other others => cases h
  | cons cell cells ih =>
      cases others with
      | nil => cases h
      | cons other others =>
          obtain ⟨hitem, hitems⟩ := List.cons.inj h
          obtain ⟨rfl, hbelow⟩ := ih hcells.2 hothers.2 hitems
          rcases cell with ⟨x, k⟩
          rcases other with ⟨y, l⟩
          cases (hitem : x = y)
          cases (hbelow : k = l)
          exact ⟨rfl, hcells.1.trans hothers.1.symm⟩

theorem ext_toList {s t : Siblings α} (h : s.toList = t.toList) : s = t := by
  rcases s with ⟨cells, m, hm⟩
  rcases t with ⟨others, n, hn⟩
  obtain ⟨rfl, rfl⟩ := cells_injective hm hn h
  rfl

theorem pop?_eq_none_iff {s : Siblings α} : s.pop? = none ↔ s.toList = [] := by
  rcases s with ⟨_ | ⟨cell, cells⟩, n, h⟩ <;> simp [pop?, toList]

theorem pop?_eq_some_iff {s t : Siblings α} {x : α} :
    s.pop? = some (x, t) ↔ s.toList = x :: t.toList := by
  rcases s with ⟨_ | ⟨cell, cells⟩, n, h⟩
  · simp [pop?, toList]
  · simp only [pop?, Option.some.injEq, Prod.mk.injEq]
    constructor
    · rintro ⟨rfl, rfl⟩
      rfl
    · intro hitems
      obtain ⟨hitem, hrest⟩ := List.cons.inj hitems
      exact ⟨hitem, ext_toList hrest⟩

/-- Two sequences are equal when their lengths are and the items agree pairwise. -/
instance [BEq α] : BEq (Siblings α) where
  beq s t := s.length == t.length && (s.toList.zip t.toList).all fun (x, y) => x == y

/-- The items between brackets, separated by commas. -/
def render (item : α → String) (s : Siblings α) : String :=
  "[" ++ ", ".intercalate (s.toList.map item) ++ "]"

end Siblings

end TreeCursor
