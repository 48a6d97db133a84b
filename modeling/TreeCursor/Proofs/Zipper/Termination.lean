import TreeCursor.Proofs.Zipper.Removal
import TreeCursor.Proofs.Zipper.Walk

/-!
# Walks that end

A walk goes on at a place after the one where the visitor leaves the cursor, and so it comes to an end
if the visitor never leaves the cursor with more places after it than there were before.  The places
after a cursor are counted in the tree with all pending edits.  Neither what is inserted before the
cursor nor what is removed there is among them.
-/

namespace TreeCursor

namespace Control

variable {β γ : Type*}

/-- What is handed back, whatever is decided about the rest of the walk. -/
def value : Control β → β
  | .proceed value => value
  | .skip value => value
  | .halt value => value

@[simp]
theorem value_map (f : β → γ) (control : Control β) : (control.map f).value = f control.value := by
  cases control <;> rfl

end Control

namespace Zipper

open TreeCursor.Tree

/-! ## The places after a cursor -/

section Ahead

variable {α : Type*} [Tree α] [LawfulTree α]

/-- In an ascending list the items above one of them are those after it. -/
theorem countP_of_pairwise {before after : List (List ℕ)} {route : List ℕ}
    (hsorted : (before ++ route :: after).Pairwise (· < ·)) :
    (before ++ route :: after).countP (fun place => route < place) = after.length := by
  obtain ⟨-, hafter, hbefore⟩ := List.pairwise_append.mp hsorted
  obtain ⟨hafter, -⟩ := List.pairwise_cons.mp hafter
  have hnone : before.countP (fun place => route < place) = 0 := by
    rw [List.countP_eq_zero]
    intro place hplace
    have hless : place < route := hbefore place hplace route List.mem_cons_self
    simpa using hless.asymm
  have hall : after.countP (fun place => route < place) = after.length := by
    rw [List.countP_eq_length]
    intro place hplace
    simpa using hafter place hplace
  rw [List.countP_append, hnone, List.countP_cons_of_neg (by simp), hall, Nat.zero_add]

/-- What stands below a cursor and to the right of its path are the places after it in the tree that
it would fold to. -/
theorem placesAfter_route {z : Zipper α} (hsound : Sound z) :
    placesAfter z.root z.route = z.ahead := by
  obtain ⟨before, after, hroutes, hbefore⟩ := exists_routes_around hsound
  have hsorted : (routes z.root).Pairwise (· < ·) := pairwise_routesInto z.root
  have hcount : (routes z.root).length = nodeCount z.root := length_routes z.root
  have hroot : nodeCount z.root = z.behind + nodeCount z.focus + pathAhead z.path :=
    nodeCount_root hsound z.focus
  rw [hroutes, List.length_append, List.length_cons, hbefore, hroot,
    nodeCount_eq_forestCount] at hcount
  rw [hroutes] at hsorted
  rw [placesAfter, hroutes, countP_of_pairwise hsorted, ahead]
  omega

theorem ahead_deepestRightmost (z : Zipper α) : z.deepestRightmost.ahead = pathAhead z.path := by
  fun_induction deepestRightmost z with
  | case1 z hdown =>
      rw [ahead, down_eq_none_iff.mp hdown, forestCount_nil, Nat.zero_add]
  | case2 z child hdown ih =>
      obtain ⟨before, last, -, hrightmost⟩ := rightmost_of_down hdown
      rw [ih, hrightmost, pathAhead_cons]
      exact Nat.zero_add _

/-- A removal takes the cursor to the last place before what lies to the right of its path. -/
theorem ahead_remove {z w : Zipper α} (hsound : Sound z) (hremove : z.remove = .ok w) :
    w.ahead = pathAhead z.path := by
  cases z using placeCases with
  | root node => cases hremove
  | child node parent lefts rights rest =>
      cases lefts with
      | nil =>
          rw [remove_nil] at hremove
          cases hremove
          rw [ahead, LawfulTree.children_rebuild (sound_cons.mp hsound).1, pathAhead_cons,
            Siblings.toList_ofList]
      | cons sibling lefts =>
          rw [remove_cons] at hremove
          cases hremove
          rw [ahead_deepestRightmost, pathAhead_cons, pathAhead_cons]

omit [LawfulTree α] in
theorem ahead_insertLeft {z w : Zipper α} {node : α} (hinsert : z.insertLeft node = .ok w) :
    w.ahead = z.ahead := by
  cases z using placeCases with
  | root node => cases hinsert
  | child node parent lefts rights rest =>
      cases hinsert
      rw [ahead, ahead, pathAhead_cons, pathAhead_cons]

omit [LawfulTree α] in
theorem ahead_replace_le {z : Zipper α} {node : α} (hcount : nodeCount node ≤ nodeCount z.focus) :
    (z.replace node).ahead ≤ z.ahead := by
  rw [nodeCount_eq_forestCount, nodeCount_eq_forestCount z.focus] at hcount
  exact Nat.add_le_add_right (Nat.le_of_add_le_add_left hcount) _

end Ahead

/-! ## The calls of a walk -/

section Calls

variable {α σ : Type*} [Tree α]

/-- Where a walk goes on after what the visitor hands back, and with which accumulator. -/
def onward : Control (Zipper α × σ) → Option (Zipper α × σ)
  | .proceed (w, acc) => w.next.map (·, acc)
  | .skip (w, acc) => (w.skip .next).map (·, acc)
  | .halt _ => none

/-- A walk goes on after the place where the visitor leaves the cursor. -/
theorem ahead_onward {control : Control (Zipper α × σ)} {call : Zipper α × σ}
    (honward : onward control = some call) : call.1.ahead < control.value.1.ahead := by
  cases control with
  | proceed value =>
      obtain ⟨w, acc⟩ := value
      obtain ⟨v, hnext, rfl⟩ := Option.map_eq_some_iff.mp honward
      exact ahead_next hnext
  | skip value =>
      obtain ⟨w, acc⟩ := value
      obtain ⟨v, hskip, rfl⟩ := Option.map_eq_some_iff.mp honward
      have hahead : v.ahead < pathAhead w.path := ahead_skipFrom hskip
      exact hahead.trans_le (Nat.le_add_left _ _)
  | halt value => cases honward

variable (visit : Zipper α → σ → Control (Zipper α × σ))

theorem walk_of_onward_eq_some {z : Zipper α} {acc : σ} {call : Zipper α × σ}
    (honward : onward (visit z acc) = some call) (visits : ℕ) :
    walk visit (visits + 1) z acc = walk visit visits call.1 call.2 := by
  rw [walk]
  cases hcontrol : visit z acc with
  | proceed value =>
      rw [hcontrol] at honward
      obtain ⟨v, hnext, rfl⟩ := Option.map_eq_some_iff.mp honward
      simp only [hnext]
  | skip value =>
      rw [hcontrol] at honward
      obtain ⟨v, hskip, rfl⟩ := Option.map_eq_some_iff.mp honward
      simp only [hskip]
  | halt value =>
      rw [hcontrol] at honward
      cases honward

theorem walk_of_onward_eq_none {z : Zipper α} {acc : σ} (honward : onward (visit z acc) = none)
    (visits : ℕ) :
    walk visit (visits + 1) z acc =
      some ((visit z acc).value.1.top, (visit z acc).value.2) := by
  rw [walk]
  cases hcontrol : visit z acc with
  | proceed value =>
      rw [hcontrol] at honward
      simp only [Option.map_eq_none_iff.mp honward]
      rfl
  | skip value =>
      rw [hcontrol] at honward
      simp only [Option.map_eq_none_iff.mp honward]
      rfl
  | halt value => rfl

/-- A call of the visitor leads to the next one. -/
def CallsNext (call call' : Zipper α × σ) : Prop :=
  onward (visit call.1 call.2) = some call'

/-- The visitor adds no work ahead: from no call of the walk that begins with the given one does it
hand back a cursor with more places after it than it was handed. -/
def AddsNoWork (z : Zipper α) (acc : σ) : Prop :=
  ∀ call : Zipper α × σ, Relation.ReflTransGen (CallsNext visit) (z, acc) call →
    (visit call.1 call.2).value.1.ahead ≤ call.1.ahead

variable {visit}

theorem AddsNoWork.of_onward {z : Zipper α} {acc : σ} {call : Zipper α × σ}
    (hvisit : AddsNoWork visit z acc) (honward : onward (visit z acc) = some call) :
    AddsNoWork visit call.1 call.2 := by
  intro call' hcalls
  exact hvisit call' (.head honward hcalls)

/-- From a call to the next one the places after the cursor become fewer. -/
theorem ahead_lt_of_onward {z : Zipper α} {acc : σ} {call : Zipper α × σ}
    (hvisit : AddsNoWork visit z acc) (honward : onward (visit z acc) = some call) :
    call.1.ahead < z.ahead :=
  (ahead_onward honward).trans_le (hvisit (z, acc) .refl)

omit [Tree α] in
theorem value_recorded (z : Zipper α) (state : σ × List α) :
    (recorded visit z state).value =
      ((visit z state.1).value.1, ((visit z state.1).value.2, state.2 ++ [z.focus])) :=
  Control.value_map _ _

theorem onward_recorded (z : Zipper α) (state : σ × List α) :
    onward (recorded visit z state) =
      (onward (visit z state.1)).map fun call => (call.1, (call.2, state.2 ++ [z.focus])) := by
  rw [recorded]
  rcases visit z state.1 with ⟨w, acc⟩ | ⟨w, acc⟩ | value
  · change w.next.map (·, (acc, state.2 ++ [z.focus])) = _
    rw [onward, Option.map_map]
    rfl
  · change (w.skip .next).map (·, (acc, state.2 ++ [z.focus])) = _
    rw [onward, Option.map_map]
    rfl
  · rfl

/-- The walk ends, with no more calls than there are places from the cursor on. -/
theorem exists_walk_recorded {z : Zipper α} {acc : σ} (hvisit : AddsNoWork visit z acc) :
    ∃ w acc' seen, seen.length ≤ z.ahead + 1 ∧ ∀ visits before, z.ahead < visits →
      walk (recorded visit) visits z (acc, before) = some (w, (acc', before ++ seen)) := by
  induction hahead : z.ahead using Nat.strongRecOn generalizing z acc with
  | _ places ih =>
      subst hahead
      cases honward : onward (visit z acc) with
      | none =>
          refine ⟨(visit z acc).value.1.top, (visit z acc).value.2, [z.focus],
            Nat.le_add_left 1 _, ?_⟩
          intro visits before hvisits
          obtain ⟨visits, rfl⟩ := Nat.exists_eq_add_one_of_ne_zero (Nat.ne_zero_of_lt hvisits)
          have hrecorded : onward (recorded visit z (acc, before)) = none := by
            rw [onward_recorded, honward]
            rfl
          rw [walk_of_onward_eq_none _ hrecorded, value_recorded]
      | some call =>
          have hless : call.1.ahead < z.ahead := ahead_lt_of_onward hvisit honward
          obtain ⟨w, acc', seen, hseen, hwalk⟩ :=
            ih call.1.ahead hless (hvisit.of_onward honward) rfl
          refine ⟨w, acc', z.focus :: seen, ?_, ?_⟩
          · rw [List.length_cons]
            omega
          · intro visits before hvisits
            obtain ⟨visits, rfl⟩ := Nat.exists_eq_add_one_of_ne_zero (Nat.ne_zero_of_lt hvisits)
            have hrecorded : onward (recorded visit z (acc, before)) =
                some (call.1, (call.2, before ++ [z.focus])) := by
              rw [onward_recorded, honward]
              rfl
            rw [walk_of_onward_eq_some _ hrecorded,
              hwalk visits (before ++ [z.focus]) (by omega), List.append_assoc,
              List.singleton_append]

end Calls

/-! ## Traversals -/

section Traversals

variable {α σ : Type*} [Tree α]

theorem exists_traverseWhileWith {visit : Zipper α → σ → Control (Zipper α × σ)} {acc : σ}
    {z : Zipper α} (hvisit : AddsNoWork visit (ofTree z.focus) acc) :
    ∃ w acc' seen, seen.length ≤ nodeCount z.focus ∧ ∀ visits, nodeCount z.focus ≤ visits →
      traverseWhileWith visits visit acc z = some (w, acc') ∧
      traverseWhileWith visits (recorded visit) (acc, []) z = some (w, (acc', seen)) := by
  have hplaces : (ofTree z.focus).ahead + 1 = nodeCount z.focus := by
    rw [nodeCount_eq_forestCount, Nat.add_comm]
    rfl
  obtain ⟨w, acc', seen, hseen, hwalk⟩ := exists_walk_recorded hvisit
  refine ⟨z.replace w.focus, acc', seen, hseen.trans_eq hplaces, ?_⟩
  intro visits hvisits
  have hrecorded : traverseWhileWith visits (recorded visit) (acc, []) z =
      some (z.replace w.focus, (acc', seen)) := by
    rw [traverseWhileWith_eq, hwalk visits [] (by omega)]
    rfl
  exact ⟨traverseWhileWith_of_recorded hrecorded, hrecorded⟩

/-- A visitor of which no call leaves more places after the cursor than there were is called at most
once for each node of the subtree in focus, and the traversal ends, whether or not the visitor keeps
an accumulator and decides about the rest of the walk.  The places after a cursor are those of the
tree that it stands in with all pending edits.  To insert before the cursor leaves them as they are,
to replace the focus by something that is not larger does not add to them, and to remove the focus
takes those below it away but leaves the cursor one place before. -/
theorem traversals_end [LawfulTree α] {tree : α} {z : Zipper α} (hreachable : Reachable tree z) :
    (∀ (visit : Zipper α → σ → Control (Zipper α × σ)) (acc : σ),
      AddsNoWork visit (ofTree z.focus) acc →
        ∃ w acc' seen, seen.length ≤ nodeCount z.focus ∧ ∀ visits, nodeCount z.focus ≤ visits →
          traverseWhileWith visits visit acc z = some (w, acc') ∧
          traverseWhileWith visits (recorded visit) (acc, []) z = some (w, (acc', seen))) ∧
    (∀ (visit : Zipper α → σ → Zipper α × σ) (acc : σ),
      AddsNoWork (fun w acc => .proceed (visit w acc)) (ofTree z.focus) acc →
        ∃ outcome, ∀ visits, nodeCount z.focus ≤ visits →
          traverseWith visits visit acc z = some outcome) ∧
    (∀ visit : Zipper α → Control (Zipper α),
      AddsNoWork (fun w acc => (visit w).map fun w => (w, acc)) (ofTree z.focus) () →
        ∃ w, ∀ visits, nodeCount z.focus ≤ visits → traverseWhile visits visit z = some w) ∧
    (∀ visit : Zipper α → Zipper α,
      AddsNoWork (fun w acc => .proceed (visit w, acc)) (ofTree z.focus) () →
        ∃ w, ∀ visits, nodeCount z.focus ≤ visits → traverse visits visit z = some w) ∧
    (∀ (whole : α) (w : Zipper α), Reachable whole w → w.ahead = placesAfter w.root w.route) ∧
    (∀ node w, z.insertLeft node = .ok w → w.ahead = z.ahead) ∧
    (∀ node, nodeCount node ≤ nodeCount z.focus → (z.replace node).ahead ≤ z.ahead) ∧
    (z.isRoot = false →
      ∃ w, z.remove = .ok w ∧ w.ahead + nodeCount z.focus = z.ahead + 1) := by
  refine ⟨?_, ?_, ?_, ?_, ?_, ?_, ?_, ?_⟩
  · intro visit acc hvisit
    exact exists_traverseWhileWith hvisit
  · intro visit acc hvisit
    obtain ⟨w, acc', seen, -, htraverse⟩ := exists_traverseWhileWith hvisit
    refine ⟨(w, acc'), fun visits hvisits => ?_⟩
    rw [traverseWith_eq]
    exact (htraverse visits hvisits).1
  · intro visit hvisit
    obtain ⟨w, acc', seen, -, htraverse⟩ := exists_traverseWhileWith hvisit
    refine ⟨w, fun visits hvisits => ?_⟩
    exact congrArg (Option.map Prod.fst) (htraverse visits hvisits).1
  · intro visit hvisit
    obtain ⟨w, acc', seen, -, htraverse⟩ := exists_traverseWhileWith hvisit
    refine ⟨w, fun visits hvisits => ?_⟩
    rw [traverse, traverseWith_eq]
    exact congrArg (Option.map Prod.fst) (htraverse visits hvisits).1
  · intro whole w hwhole
    exact (placesAfter_route (sound_of_reachable hwhole)).symm
  · intro node w hinsert
    exact ahead_insertLeft hinsert
  · intro node hcount
    exact ahead_replace_le hcount
  · intro hroot
    have hsound : Sound z := sound_of_reachable hreachable
    cases z using placeCases with
    | root node => cases hroot
    | child node parent lefts rights rest =>
        obtain ⟨w, hremove⟩ := exists_remove node parent lefts rights rest
        refine ⟨w, hremove, ?_⟩
        rw [ahead_remove hsound hremove, nodeCount_eq_forestCount, ahead]
        omega

/-- Inserts each node before itself as well, and ends at the third one. -/
def doubled (w : Zipper Term) (count : ℕ) : Control (Zipper Term × ℕ) :=
  if count = 2 then .halt (w, count)
  else .proceed ((w.insertLeft w.focus).toOption.getD w, count + 1)

theorem addsNoWork_doubled (z : Zipper Term) (count : ℕ) : AddsNoWork doubled z count := by
  rintro ⟨w, count⟩ -
  rw [doubled]
  split
  · exact le_rfl
  · cases hinsert : w.insertLeft w.focus with
    | error reason => exact le_rfl
    | ok v => exact (ahead_insertLeft hinsert).le

/-- In a pair that will be a block a list of two items is traversed in three calls, and to remove it
leaves the number beside it as the only place ahead.  In an object all but arrays and objects gives
way to null. -/
theorem traversals_end_of_list_and_object :
    (Reachable (Term.pair (.list [.int 1, .int 2]) (.int 3))
        ⟨.list [.int 1, .int 2], [⟨.pair (.list [.int 1, .int 2]) (.int 3),
          .ofList [.int 7], .ofList [.int 3]⟩]⟩ ∧
      AddsNoWork doubled (ofTree (.list [.int 1, .int 2])) 0 ∧
      (∃ w count seen, seen.length ≤ 3 ∧
        traverseWhileWith 3 (recorded doubled) (0, []) ⟨.list [.int 1, .int 2],
          [⟨.pair (.list [.int 1, .int 2]) (.int 3), .ofList [.int 7], .ofList [.int 3]⟩]⟩ =
            some (w, (count, seen))) ∧
      ∃ w : Zipper Term, remove ⟨.list [.int 1, .int 2],
          [⟨.pair (.list [.int 1, .int 2]) (.int 3), .ofList [.int 7], .ofList [.int 3]⟩]⟩ =
            .ok w ∧ w.ahead = 1) ∧
    (AddsNoWork (fun (w : Zipper Document) acc =>
          .proceed (if isBranch w.focus then w else w.replace .null, acc))
        (ofTree (.object ⟨[("a", .bool true)], by decide⟩)) () ∧
      ∃ w, traverse 4 (fun w => if isBranch w.focus then w else w.replace .null)
        (ofTree (Document.object ⟨[("a", .bool true)], by decide⟩)) = some w) := by
  have hterm : Reachable (Term.pair (.list [.int 1, .int 2]) (.int 3))
      ⟨.list [.int 1, .int 2], [⟨.pair (.list [.int 1, .int 2]) (.int 3),
        .ofList [.int 7], .ofList [.int 3]⟩]⟩ :=
    .edit (.insertLeft (.int 7)) (.move (.move .down) .start rfl) rfl
  have hnulls : AddsNoWork (fun (w : Zipper Document) acc =>
        .proceed (if isBranch w.focus then w else w.replace .null, acc))
      (ofTree (.object ⟨[("a", .bool true)], by decide⟩)) () := by
    rintro ⟨w, acc⟩ -
    change ahead (if isBranch w.focus then w else w.replace .null) ≤ w.ahead
    split
    · exact le_rfl
    · exact ahead_replace_le (nodeCount_pos w.focus)
  obtain ⟨hwith, -, -, -, -, -, -, hremove⟩ := traversals_end hterm
  obtain ⟨w, count, seen, hseen, htraverse⟩ := hwith doubled 0 (addsNoWork_doubled _ 0)
  obtain ⟨v, hv, hahead⟩ := hremove rfl
  have hdocument : Reachable (Document.object ⟨[("a", .bool true)], by decide⟩) (ofTree _) := .start
  obtain ⟨-, -, -, hplain, -⟩ := @traversals_end Document Unit _ _ _ _ hdocument
  obtain ⟨v', hv'⟩ := hplain _ hnulls
  exact ⟨⟨hterm, addsNoWork_doubled _ 0, ⟨w, count, seen, hseen, (htraverse 3 le_rfl).2⟩,
    v, hv, Nat.add_right_cancel hahead⟩, hnulls, v', hv' 4 le_rfl⟩

end Traversals

end Zipper

end TreeCursor
