import Mathlib.Data.Nat.Notation
import Mathlib.Logic.Function.Basic
import TreeCursor.Siblings

/-!
# Sequences and the lists that they stand for

A sequence stands for the list of its items, and the lengths that its tails keep are those of the
tails of that list.  Sequences that are made from one another, in any order and with any tails in
common, therefore stand for the lists that are made from one another in the same way, which share
nothing and keep no lengths.
-/

namespace TreeCursor.Siblings

variable {α : Type*}

/-! ## What a sequence is made of -/

theorem length_eq_of_sized {cells : List (Cell α)} {length : ℕ} (hsized : Sized cells length) :
    length = cells.length := by
  induction cells generalizing length with
  | nil => exact hsized
  | cons cell cells ih =>
      obtain ⟨hlength, hbelow⟩ := hsized
      rw [hlength, ih hbelow, List.length_cons]

theorem length_eq_length_toList (s : Siblings α) : s.length = s.toList.length := by
  rw [length_eq_of_sized s.sized, toList, List.length_map]

theorem isEmpty_eq_isEmpty_toList (s : Siblings α) : s.isEmpty = s.toList.isEmpty := by
  rw [isEmpty, toList, List.isEmpty_map]

theorem exists_eq_ofList (s : Siblings α) : ∃ items, s = .ofList items :=
  ⟨s.toList, ext_toList (toList_ofList s.toList).symm⟩

theorem ofList_injective : Function.Injective (ofList : List α → Siblings α) :=
  Function.LeftInverse.injective toList_ofList

@[simp]
theorem push_ofList (items : List α) (item : α) :
    (ofList items).push item = ofList (item :: items) := rfl

@[simp]
theorem length_ofList (items : List α) : (ofList items).length = items.length := by
  rw [length_eq_length_toList, toList_ofList]

@[simp]
theorem isEmpty_ofList (items : List α) : (ofList items).isEmpty = items.isEmpty := by
  rw [isEmpty_eq_isEmpty_toList, toList_ofList]

/-! ## Equality -/

section Equality

variable [BEq α]

/-- Of the stored lengths nothing is left to see. -/
theorem beq_eq_zip_all (s t : Siblings α) :
    (s == t) = (s.toList.length == t.toList.length &&
      (s.toList.zip t.toList).all fun pair => pair.1 == pair.2) := by
  rw [← length_eq_length_toList, ← length_eq_length_toList]
  rfl

theorem beq_iff_getElem? (s t : Siblings α) :
    (s == t) = true ↔ s.toList.length = t.toList.length ∧
      ∀ (i : ℕ) (x y : α), s.toList[i]? = some x → t.toList[i]? = some y → (x == y) = true := by
  rw [beq_eq_zip_all, Bool.and_eq_true, beq_iff_eq, List.all_eq_true]
  refine and_congr_right fun _ => ⟨fun hall i x y hx hy => ?_, fun hitems pair hpair => ?_⟩
  · have hpair : (s.toList.zip t.toList)[i]? = some (x, y) :=
      List.getElem?_zip_eq_some.mpr ⟨hx, hy⟩
    exact hall (x, y) (List.mem_of_getElem? hpair)
  · obtain ⟨i, hi⟩ := List.mem_iff_getElem?.mp hpair
    obtain ⟨hx, hy⟩ := List.getElem?_zip_eq_some.mp hi
    exact hitems i pair.1 pair.2 hx hy

/-- The items are compared in pairs, yet what one of the sequences lacks is not passed over. -/
theorem beq_eq_false_of_prefix {s t : Siblings α} (hbegins : s.toList <+: t.toList)
    (hproper : s.toList ≠ t.toList) : (s == t) = false := by
  rw [Bool.eq_false_iff]
  intro hequal
  exact hproper (hbegins.eq_of_length ((beq_iff_getElem? s t).mp hequal).1)

end Equality

/-! ## Sequences made from one another -/

/-- The ways in which sequences are made and taken apart. -/
structure Stack (σ α : Type*) where
  empty : σ
  push : σ → α → σ
  pop? : σ → Option (α × σ)
  ofList : List α → σ

/-- Sequences that share their tails. -/
def sharing : Stack (Siblings α) α where
  empty := Siblings.empty
  push := Siblings.push
  pop? := Siblings.pop?
  ofList := Siblings.ofList

/-- Lists, which stand for themselves. -/
def lists : Stack (List α) α where
  empty := []
  push items x := x :: items
  pop?
    | [] => none
    | x :: items => some (x, items)
  ofList items := items

/-- How a sequence is made; a source is told by its place among those that are there already. -/
inductive Origin (α : Type*) where
  | empty
  | push (source : ℕ) (x : α)
  | pop (source : ℕ)
  | ofList (items : List α)
  | copy (source : ℕ)

/-- The new sequence, unless there is nothing to make it from. -/
def Origin.make? {σ : Type*} (stack : Stack σ α) (made : List σ) : Origin α → Option σ
  | .empty => some stack.empty
  | .push source x => made[source]?.map fun s => stack.push s x
  | .pop source => (made[source]?.bind stack.pop?).map Prod.snd
  | .ofList items => some (stack.ofList items)
  | .copy source => made[source]?

namespace Stack

variable {σ : Type*} (stack : Stack σ α)

/-- One more sequence beside those that are there, which stay as they are. -/
def extend (made : List σ) (origin : Origin α) : List σ :=
  made ++ (origin.make? stack made).toList

/-- All sequences of a history, the oldest first. -/
def build (origins : List (Origin α)) : List σ :=
  origins.foldl stack.extend []

end Stack

theorem pop?_toList (s : Siblings α) :
    lists.pop? s.toList = s.pop?.map fun (x, t) => (x, t.toList) := by
  cases hpop : s.pop? with
  | none => rw [pop?_eq_none_iff.mp hpop]; rfl
  | some popped => rw [pop?_eq_some_iff.mp hpop]; rfl

theorem map_toList_make? (made : List (Siblings α)) (origin : Origin α) :
    (origin.make? sharing made).map toList = origin.make? lists (made.map toList) := by
  cases origin with
  | empty => rfl
  | push source x =>
      rw [Origin.make?, Origin.make?, List.getElem?_map, Option.map_map, Option.map_map]
      rfl
  | pop source =>
      rw [Origin.make?, Origin.make?, List.getElem?_map]
      cases made[source]? with
      | none => rfl
      | some s =>
          rw [Option.map_some, Option.bind_some, Option.bind_some, pop?_toList, Option.map_map,
            Option.map_map]
          rfl
  | ofList items => exact congrArg some (toList_ofList items)
  | copy source => rw [Origin.make?, Origin.make?, List.getElem?_map]

/-- A step of a history does the same to sequences as to lists. -/
theorem map_toList_extend (made : List (Siblings α)) (origin : Origin α) :
    (sharing.extend made origin).map toList = lists.extend (made.map toList) origin := by
  rw [Stack.extend, Stack.extend, List.map_append, ← map_toList_make?, Option.toList_map]

theorem map_toList_build (origins : List (Origin α)) :
    (sharing.build origins).map toList = lists.build origins :=
  (List.foldl_hom (List.map toList) fun made origin => (map_toList_extend made origin).symm).symm

/-- A sequence does what the list of its items does. -/
structure Faithful (s : Siblings α) : Prop where
  length_eq : s.length = s.toList.length
  isEmpty_iff : s.isEmpty ↔ s.length = 0
  toList_push : ∀ x, (s.push x).toList = x :: s.toList
  pop_eq_none_iff : s.pop? = none ↔ s.isEmpty
  pop_eq_some_iff : ∀ x t, s.pop? = some (x, t) ↔ s.toList = x :: t.toList

theorem faithful (s : Siblings α) : Faithful s where
  length_eq := length_eq_length_toList s
  isEmpty_iff := by
    rw [isEmpty_eq_isEmpty_toList, List.isEmpty_iff, length_eq_length_toList,
      List.length_eq_zero_iff]
  toList_push := toList_push s
  pop_eq_none_iff := by rw [pop?_eq_none_iff, isEmpty_eq_isEmpty_toList, List.isEmpty_iff]
  pop_eq_some_iff _ _ := pop?_eq_some_iff

/-- Whatever sequences are made from one another, they are the lists that are made in the same way,
with the lengths of these lists.  They are equal when they have as many items and these are equal
one by one, so that none is equal to a longer one that begins with it. -/
theorem build_represents_lists [BEq α] (origins : List (Origin α)) :
    (sharing.build origins).map toList = lists.build origins ∧
    (∀ items : List α, (ofList items).toList = items) ∧
    (∀ s ∈ sharing.build origins, Faithful s) ∧
    ∀ s ∈ sharing.build origins, ∀ t ∈ sharing.build origins,
      ((s == t) = true ↔ s.toList.length = t.toList.length ∧
        ∀ (i : ℕ) (x y : α), s.toList[i]? = some x → t.toList[i]? = some y → (x == y) = true) ∧
      (s.toList <+: t.toList → s.toList ≠ t.toList → (s == t) = false) := by
  refine ⟨map_toList_build origins, toList_ofList, fun s _ => faithful s, fun s _ t _ => ?_⟩
  exact ⟨beq_iff_getElem? s t, beq_eq_false_of_prefix⟩

/-- Two sequences on top of a third one, of which one is popped again and copied. -/
theorem build_represents_lists_of_shared_tail :
    let origins : List (Origin ℕ) :=
      [.ofList [1, 2], .push 0 0, .push 0 7, .pop 1, .copy 3, .empty, .pop 5]
    (sharing.build origins).map toList = [[1, 2], [0, 1, 2], [7, 1, 2], [1, 2], [1, 2], []] ∧
      Faithful (ofList [7, 1, 2]) ∧ ((empty.push 2).push 1 == ofList [1, 2]) = true ∧
      (empty == ofList [1, 2]) = false := by
  intro origins
  obtain ⟨hlists, -, hfaithful, hequal⟩ := build_represents_lists origins
  have hbase : ofList [1, 2] ∈ sharing.build origins := .head _
  have hempty : empty ∈ sharing.build origins := by
    iterate 5 apply List.Mem.tail
    exact .head _
  refine ⟨hlists.trans rfl, hfaithful _ (.tail _ (.tail _ (.head _))), ?_, ?_⟩
  · exact (hequal _ hbase _ hbase).1.mpr ⟨rfl, fun i x y hx hy => by simp_all⟩
  · exact (hequal _ hempty _ hbase).2 (by decide) (by decide)

end TreeCursor.Siblings
