import TreeCursor.Proofs.Json.Equality
import TreeCursor.Proofs.Zipper.Reachable

/-!
# Equality of cursors

Cursors are compared by all that they hold.  If nodes are equal when a reading of them is the same,
cursors are equal when they are the same once all their nodes are read.  The moves to the side and
the edits among the siblings do not look at nodes, so that they may be made before or after the
reading.  The moves up rebuild equal parents over equal children.  A removal may go down below a
node that is equal to another one without having the same children, but it does not change the tree
on its way.
-/

namespace TreeCursor

/-! ## Cursors with their nodes read -/

section Map

variable {α β : Type*} (read : α → β)

def Siblings.map (siblings : Siblings α) : Siblings β :=
  .ofList (siblings.toList.map read)

@[simp]
theorem Siblings.map_ofList (items : List α) :
    (ofList items).map read = ofList (items.map read) := by
  rw [map, toList_ofList]

def Frame.map (frame : Frame α) : Frame β :=
  ⟨read frame.parent, frame.left.map read, frame.right.map read⟩

@[simp]
theorem Frame.map_ofList (parent : α) (lefts rights : List α) :
    (Frame.mk parent (.ofList lefts) (.ofList rights)).map read =
      ⟨read parent, .ofList (lefts.map read), .ofList (rights.map read)⟩ := by
  rw [map, Siblings.map_ofList, Siblings.map_ofList]

namespace Zipper

def map (z : Zipper α) : Zipper β :=
  ⟨read z.focus, z.path.map (Frame.map read)⟩

theorem map_child (node parent : α) (lefts rights : List α) (rest : List (Frame α)) :
    map read ⟨node, ⟨parent, .ofList lefts, .ofList rights⟩ :: rest⟩ =
      ⟨read node, ⟨read parent, .ofList (lefts.map read), .ofList (rights.map read)⟩ ::
        rest.map (Frame.map read)⟩ := by
  rw [map, List.map_cons, Frame.map_ofList]

variable (z : Zipper α)

theorem map_left : z.left.map (map read) = (z.map read).left := by
  cases z using placeCases with
  | root node => rfl
  | child node parent lefts rights rest =>
      rw [map_child]
      cases lefts with
      | nil => rfl
      | cons sibling lefts => rw [left_cons, Option.map_some, map_child]; rfl

theorem map_right : z.right.map (map read) = (z.map read).right := by
  cases z using placeCases with
  | root node => rfl
  | child node parent lefts rights rest =>
      rw [map_child]
      cases rights with
      | nil => rfl
      | cons sibling rights => rw [right_cons, Option.map_some, map_child]; rfl

theorem map_leftmost : z.leftmost.map read = (z.map read).leftmost := by
  cases z using placeCases with
  | root node => rfl
  | child node parent lefts rights rest =>
      obtain rfl | ⟨before, first, rfl⟩ := lefts.eq_nil_or_concat'
      · rw [leftmost_nil, map_child]
        rfl
      · rw [leftmost_append, map_child, map_child]
        simp only [List.map_append, List.map_reverse, List.map_cons, List.map_nil]
        rw [leftmost_append]

theorem map_rightmost : z.rightmost.map read = (z.map read).rightmost := by
  cases z using placeCases with
  | root node => rfl
  | child node parent lefts rights rest =>
      obtain rfl | ⟨before, last, rfl⟩ := rights.eq_nil_or_concat'
      · rw [rightmost_nil, map_child]
        rfl
      · rw [rightmost_append, map_child, map_child]
        simp only [List.map_append, List.map_reverse, List.map_cons, List.map_nil]
        rw [rightmost_append]

theorem map_insertLeft (node : α) :
    (z.insertLeft node).toOption.map (map read) =
      ((z.map read).insertLeft (read node)).toOption := by
  cases z using placeCases with
  | root focus => rfl
  | child focus parent lefts rights rest =>
      rw [map_child]
      exact congrArg some (map_child read focus parent (node :: lefts) rights rest)

theorem map_insertRight (node : α) :
    (z.insertRight node).toOption.map (map read) =
      ((z.map read).insertRight (read node)).toOption := by
  cases z using placeCases with
  | root focus => rfl
  | child focus parent lefts rights rest =>
      rw [map_child]
      exact congrArg some (map_child read focus parent lefts (node :: rights) rest)

end Zipper

end Map

/-! ## Comparison by a reading -/

section Comparison

variable {α β : Type*} [BEq α] {read : α → β}
variable (hread : ∀ a b : α, (a == b) = true ↔ read a = read b)
include hread

theorem Siblings.beq_iff_map_eq (s t : Siblings α) : (s == t) = true ↔ s.map read = t.map read := by
  obtain ⟨items, rfl⟩ := s.exists_eq_ofList
  obtain ⟨others, rfl⟩ := t.exists_eq_ofList
  have hitems : (items.length == others.length &&
      (items.zip others).all fun pair => pair.1 == pair.2) = true ↔
        items.map read = others.map read := by
    induction items generalizing others with
    | nil => cases others <;> simp
    | cons item items ih =>
        cases others with
        | nil => simp
        | cons other others => simpa [hread, and_left_comm] using and_congr_right fun _ => ih others
  rw [beq_eq_zip_all, toList_ofList, toList_ofList, map_ofList, map_ofList,
    ofList_injective.eq_iff]
  exact hitems

theorem Frame.beq_iff_map_eq (f g : Frame α) : (f == g) = true ↔ f.map read = g.map read := by
  change (f.left == g.left && f.right == g.right && f.parent == g.parent) = true ↔ _
  rw [Bool.and_eq_true, Bool.and_eq_true, Siblings.beq_iff_map_eq hread,
    Siblings.beq_iff_map_eq hread, hread, map, map, Frame.mk.injEq]
  tauto

theorem List.beq_iff_map_eq (xs ys : List α) : (xs == ys) = true ↔ xs.map read = ys.map read := by
  induction xs generalizing ys with
  | nil => cases ys <;> simp
  | cons x xs ih => cases ys <;> simp [hread, ih]

theorem Option.beq_iff_map_eq (x y : Option α) : (x == y) = true ↔ x.map read = y.map read := by
  cases x <;> cases y <;> simp [hread]

theorem Zipper.beq_iff_map_eq (z w : Zipper α) : (z == w) = true ↔ z.map read = w.map read := by
  change (z.focus == w.focus && z.path == w.path) = true ↔ _
  rw [Bool.and_eq_true, hread, List.beq_iff_map_eq (Frame.beq_iff_map_eq hread), map, map,
    Zipper.mk.injEq]

end Comparison

/-! ## Moves up -/

section Congruence

variable {α β : Type*} [Tree α] {read : α → β}
variable (hrebuild : ∀ (node other : α) (nodes others : List α), read node = read other →
  nodes.map read = others.map read →
    read (Tree.rebuild node nodes) = read (Tree.rebuild other others))
include hrebuild

theorem Frame.read_fill {f g : Frame α} {node other : α} (hframe : f.map read = g.map read)
    (hnode : read node = read other) : read (f.fill node) = read (g.fill other) := by
  obtain ⟨parent, left, right⟩ := f
  obtain ⟨parent', left', right'⟩ := g
  obtain ⟨hparent, hleft, hright⟩ := Frame.mk.inj hframe
  have hlefts : left.toList.map read = left'.toList.map read := Siblings.ofList_injective hleft
  have hrights : right.toList.map read = right'.toList.map read := Siblings.ofList_injective hright
  apply hrebuild parent parent' _ _ hparent
  rw [List.map_append, List.map_append, List.map_reverse, List.map_reverse, List.map_cons,
    List.map_cons, hlefts, hrights, hnode]

namespace Zipper

theorem read_root {node other : α} {path path' : List (Frame α)} (hnode : read node = read other)
    (hpath : path.map (Frame.map read) = path'.map (Frame.map read)) :
    read (root ⟨node, path⟩) = read (root ⟨other, path'⟩) := by
  induction path generalizing node other path' with
  | nil =>
      cases path' with
      | nil => exact hnode
      | cons frame' rest' => cases hpath
  | cons frame rest ih =>
      cases path' with
      | nil => cases hpath
      | cons frame' rest' =>
          obtain ⟨hframe, hrest⟩ := List.cons.inj hpath
          rw [root_cons, root_cons]
          exact ih (Frame.read_fill hrebuild hframe hnode) hrest

theorem map_up_congr {z w : Zipper α} (hmap : z.map read = w.map read) :
    z.up.map (map read) = w.up.map (map read) := by
  obtain ⟨node, path⟩ := z
  obtain ⟨other, path'⟩ := w
  obtain ⟨hnode, hpath⟩ := Zipper.mk.inj hmap
  cases path with
  | nil =>
      cases path' with
      | nil => rfl
      | cons frame' rest' => cases hpath
  | cons frame rest =>
      cases path' with
      | nil => cases hpath
      | cons frame' rest' =>
          obtain ⟨hframe, hrest⟩ := List.cons.inj hpath
          have hfill := Frame.read_fill hrebuild hframe hnode
          exact congrArg some (congrArg₂ Zipper.mk hfill hrest)

theorem map_root_remove_congr [LawfulTree α] {z w : Zipper α} (hmap : z.map read = w.map read) :
    (z.remove.toOption.map root).map read = (w.remove.toOption.map root).map read := by
  cases z using placeCases with
  | root node =>
      cases w using placeCases with
      | root other => rfl
      | child other parent' lefts' rights' rest' => cases (Zipper.mk.inj hmap).2
  | child node parent lefts rights rest =>
      cases w using placeCases with
      | root other => cases (Zipper.mk.inj hmap).2
      | child other parent' lefts' rights' rest' =>
          rw [map_child, map_child] at hmap
          injection hmap with hnode hpath
          obtain ⟨hframe, hrest⟩ := List.cons.inj hpath
          injection hframe with hparent hleft hright
          have hlefts : lefts.map read = lefts'.map read := Siblings.ofList_injective hleft
          have hrights : rights.map read = rights'.map read := Siblings.ofList_injective hright
          obtain ⟨v, hremove⟩ := exists_remove node parent lefts rights rest
          obtain ⟨v', hremove'⟩ := exists_remove other parent' lefts' rights' rest'
          rw [hremove, hremove']
          -- the cursors may end below nodes with other children, but not so the trees
          refine congrArg some ?_
          rw [root_of_remove hremove, root_of_remove hremove']
          refine read_root hrebuild (hrebuild _ _ _ _ hparent ?_) hrest
          rw [List.map_append, List.map_append, List.map_reverse, List.map_reverse, hlefts, hrights]

end Zipper

end Congruence

/-! ## Comparison of shared paths -/

namespace Zipper

section Shared

variable {α β : Type*} [BEq α]

/-- The comparison of paths that takes two for equal where they are known to be the same one. -/
def equalPaths (shared : List (Frame α) → List (Frame α) → Bool) :
    List (Frame α) → List (Frame α) → Bool
  | [], [] => true
  | frame :: rest, frame' :: rest' =>
      shared (frame :: rest) (frame' :: rest') ||
        (frame.left == frame'.left && frame.right == frame'.right &&
          (frame.parent == frame'.parent && equalPaths shared rest rest'))
  | _, _ => false

def equalSharing (shared : List (Frame α) → List (Frame α) → Bool) (z w : Zipper α) : Bool :=
  z.focus == w.focus && equalPaths shared z.path w.path

variable {read : α → β} (hread : ∀ a b : α, (a == b) = true ↔ read a = read b)
variable {shared : List (Frame α) → List (Frame α) → Bool}
variable (hshared : ∀ path path', shared path path' = true → path = path')
include hread hshared

/-- A path equals itself, so that nothing is lost where its frames are not looked at. -/
theorem equalPaths_eq_beq (path path' : List (Frame α)) :
    equalPaths shared path path' = (path == path') := by
  induction path generalizing path' with
  | nil => cases path' <;> rfl
  | cons frame rest ih =>
      cases path' with
      | nil => rfl
      | cons frame' rest' =>
          rw [equalPaths, ih, List.cons_beq_cons]
          cases hsame : shared (frame :: rest) (frame' :: rest') with
          | false =>
              rw [Bool.false_or, ← Bool.and_assoc]
              rfl
          | true =>
              -- they are the same path, which the comparison has to find equal to itself
              obtain ⟨rfl, rfl⟩ := List.cons.inj (hshared _ _ hsame)
              have hframe : (frame == frame) = true := (Frame.beq_iff_map_eq hread _ _).2 rfl
              have hrest : (rest == rest) = true :=
                (List.beq_iff_map_eq (Frame.beq_iff_map_eq hread) _ _).2 rfl
              rw [hframe, hrest]
              rfl

theorem equalSharing_eq_beq (z w : Zipper α) : equalSharing shared z w = (z == w) := by
  rw [equalSharing, equalPaths_eq_beq hread hshared]
  rfl

end Shared

/-! ## Cursors in documents -/

theorem beq_iff_map_canonical_eq (z w : Zipper Document) :
    (z == w) = true ↔ z.map Document.canonical = w.map Document.canonical :=
  beq_iff_map_eq Document.beq_iff_canonical_eq z w

theorem option_beq_of_map_canonical_eq {x y : Option (Zipper Document)}
    (hmap : x.map (map Document.canonical) = y.map (map Document.canonical)) : (x == y) = true :=
  (Option.beq_iff_map_eq beq_iff_map_canonical_eq x y).2 hmap

/-- A step away from two cursors, made with equal nodes where it takes one, leads from both to equal
cursors or is refused at both. -/
structure StepsAlike (z w : Zipper Document) : Prop where
  up : (z.up == w.up) = true
  left : (z.left == w.left) = true
  right : (z.right == w.right) = true
  leftmost : (z.leftmost == w.leftmost) = true
  rightmost : (z.rightmost == w.rightmost) = true
  top : (z.top == w.top) = true
  root : (z.root == w.root) = true
  replace : ∀ x y : Document, (x == y) = true → (z.replace x == w.replace y) = true
  insertLeft : ∀ x y : Document, (x == y) = true →
    ((z.insertLeft x).toOption == (w.insertLeft y).toOption) = true
  insertRight : ∀ x y : Document, (x == y) = true →
    ((z.insertRight x).toOption == (w.insertRight y).toOption) = true
  remove : (z.remove.toOption.map Zipper.root == w.remove.toOption.map Zipper.root) = true

theorem stepsAlike_of_beq {z w : Zipper Document} (hequal : (z == w) = true) : StepsAlike z w := by
  have hrebuild : ∀ (a b : Document) (nodes others : List Document), a.canonical = b.canonical →
      nodes.map Document.canonical = others.map Document.canonical →
        (Tree.rebuild a nodes).canonical = (Tree.rebuild b others).canonical :=
    fun _ _ _ _ hnode hnodes => Document.canonical_rebuild hnode hnodes
  have hmap := (beq_iff_map_canonical_eq z w).1 hequal
  obtain ⟨hfocus, hpath⟩ := Zipper.mk.inj hmap
  have hroot : z.root.canonical = w.root.canonical := read_root hrebuild hfocus hpath
  constructor
  case up => exact option_beq_of_map_canonical_eq (map_up_congr hrebuild hmap)
  case left =>
      apply option_beq_of_map_canonical_eq
      rw [map_left, map_left, hmap]
  case right =>
      apply option_beq_of_map_canonical_eq
      rw [map_right, map_right, hmap]
  case leftmost => rw [beq_iff_map_canonical_eq, map_leftmost, map_leftmost, hmap]
  case rightmost => rw [beq_iff_map_canonical_eq, map_rightmost, map_rightmost, hmap]
  case top =>
      rw [beq_iff_map_canonical_eq]
      exact congrArg ofTree hroot
  case root => exact (Document.beq_iff_canonical_eq _ _).2 hroot
  case replace =>
      intro x y hxy
      rw [beq_iff_map_canonical_eq]
      exact congrArg₂ mk ((Document.beq_iff_canonical_eq x y).1 hxy) hpath
  case insertLeft =>
      intro x y hxy
      apply option_beq_of_map_canonical_eq
      rw [map_insertLeft, map_insertLeft, hmap, (Document.beq_iff_canonical_eq x y).1 hxy]
  case insertRight =>
      intro x y hxy
      apply option_beq_of_map_canonical_eq
      rw [map_insertRight, map_insertRight, hmap, (Document.beq_iff_canonical_eq x y).1 hxy]
  case remove =>
      apply (Option.beq_iff_map_eq Document.beq_iff_canonical_eq _ _).2
      exact map_root_remove_congr hrebuild hmap

/-- Equality of cursors in documents is an equivalence, is not changed by taking the same path for
equal to itself, and is kept by every step that does not go down, although equal objects may have
their members, and so their children, in another order. -/
theorem equality_is_congruence :
    (∀ z : Zipper Document, (z == z) = true) ∧
    (∀ z w : Zipper Document, (z == w) = true → (w == z) = true) ∧
    (∀ z w v : Zipper Document, (z == w) = true → (w == v) = true → (z == v) = true) ∧
    (∀ shared : List (Frame Document) → List (Frame Document) → Bool,
      (∀ path path', shared path path' = true → path = path') →
        ∀ z w, equalSharing shared z w = (z == w)) ∧
    ∀ z w : Zipper Document, (z == w) = true → StepsAlike z w := by
  refine ⟨?_, ?_, ?_, ?_, fun z w => stepsAlike_of_beq⟩
  · intro z
    rw [beq_iff_map_canonical_eq]
  · intro z w hzw
    rw [beq_iff_map_canonical_eq] at hzw ⊢
    exact hzw.symm
  · intro z w v hzw hwv
    rw [beq_iff_map_canonical_eq] at hzw hwv ⊢
    exact hzw.trans hwv
  · intro shared hshared z w
    exact equalSharing_eq_beq Document.beq_iff_canonical_eq hshared z w

open Classical in
/-- Two cursors in an array of objects, at objects of the same members in another order, with such
objects beside them and in the array as it was left.  No paths but those that are the same are taken
for equal without a look at them. -/
theorem equality_is_congruence_of_reordered_members :
    let ab : Document := .object ⟨[("a", .null), ("b", .bool true)], by decide⟩
    let ba : Document := .object ⟨[("b", .bool true), ("a", .null)], by decide⟩
    let z : Zipper Document := ⟨ab, [⟨.array [ab, ba], .ofList [], .ofList [ba]⟩]⟩
    let w : Zipper Document := ⟨ba, [⟨.array [ba, ab], .ofList [], .ofList [ab]⟩]⟩
    (z == w) = true ∧ (w == z) = true ∧
      equalSharing (fun path path' => decide (path = path')) z w = true ∧
      StepsAlike z w ∧ (z.down.map focus == w.down.map focus) = false := by
  intro ab ba z w
  have hequal : (z == w) = true := by decide
  obtain ⟨-, hsymm, -, hsharing, hsteps⟩ := equality_is_congruence
  refine ⟨hequal, hsymm z w hequal, ?_, hsteps z w hequal, by decide⟩
  exact (hsharing _ (fun _ _ => of_decide_eq_true) z w).trans hequal

end Zipper

end TreeCursor
