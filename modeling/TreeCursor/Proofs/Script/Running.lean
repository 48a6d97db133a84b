import TreeCursor.Proofs.Script.Messages
import TreeCursor.Proofs.Script.Routes

/-!
# Runs of scripts

A run makes the single moves of a script one after the other, those of a step as often as the step
says.  It fails at the first move without a target.  Its report tells where that is: all steps
before the reported one can be made, and that one so often as reported, but not once more.
-/

namespace TreeCursor

/-- The report of a failure with so many steps before those that it was found in. -/
def RunError.after (error : RunError) (steps : ℕ) : RunError :=
  { error with position := error.position + steps }

/-- The moves that have a target everywhere. -/
def Move.jumps : List Move := [.leftmost, .rightmost, .top]

namespace Script

/-- The single moves of a script. -/
def moves (steps : List Step) : List Move :=
  steps.flatMap fun made => List.replicate made.times made.move

theorem moves_cons (made : Step) (steps : List Step) :
    moves (made :: steps) = List.replicate made.times made.move ++ moves steps :=
  List.flatMap_cons

section Follow

variable {α : Type*} [Tree α]

/-- Move after move, unless one has no target. -/
def follow (kinds : List Move) (z : Zipper α) : Option (Zipper α) :=
  kinds.foldlM (fun w kind => kind.apply w) z

/-- The report tells the first move without a target: the steps before the reported one have been
made, and that one so many times. -/
inductive StuckAt (steps : List Step) (z : Zipper α) : RunError → Prop where
  | intro (before : List Step) (made : Step) (after : List Step) (completed : ℕ) (w : Zipper α)
      (hsteps : steps = before ++ made :: after) (hcompleted : completed < made.times)
      (hdone : follow (moves before ++ List.replicate completed made.move) z = some w)
      (hstuck : made.move.apply w = none) :
      StuckAt steps z ⟨before.length + 1, made.move, completed⟩

theorem follow_cons (kind : Move) (kinds : List Move) (z : Zipper α) :
    follow (kind :: kinds) z = (kind.apply z).bind (follow kinds) :=
  List.foldlM_cons

theorem follow_append (first second : List Move) (z : Zipper α) :
    follow (first ++ second) z = (follow first z).bind (follow second) :=
  List.foldlM_append

/-! ## Repeated moves -/

theorem repeatMove_eq_ok_iff (completed : ℕ) {kind : Move} {times : ℕ} {z w : Zipper α} :
    repeatMove kind times completed z = .ok w ↔ follow (List.replicate times kind) z = some w := by
  induction times generalizing completed z with
  | zero => simp [repeatMove, follow]
  | succ times ih =>
      rw [repeatMove, List.replicate_succ, follow_cons]
      cases kind.apply z with
      | none => simp
      | some v => exact ih (completed + 1)

theorem repeatMove_eq_error_iff {kind : Move} {times completed count : ℕ} {z : Zipper α} :
    repeatMove kind times completed z = .error count ↔
      ∃ made < times, ∃ w, count = completed + made ∧
        follow (List.replicate made kind) z = some w ∧ kind.apply w = none := by
  induction times generalizing completed z with
  | zero => simp [repeatMove]
  | succ times ih =>
      rw [repeatMove]
      cases happly : kind.apply z with
      | none =>
          constructor
          · intro hcount
            cases hcount
            exact ⟨0, Nat.succ_pos times, z, rfl, rfl, happly⟩
          · rintro ⟨_ | made, -, w, rfl, hdone, -⟩
            · rfl
            · rw [List.replicate_succ, follow_cons, happly] at hdone
              cases hdone
      | some v =>
          rw [ih]
          constructor
          · rintro ⟨made, hmade, w, rfl, hdone, hstuck⟩
            refine ⟨made + 1, Nat.succ_lt_succ hmade, w, ?_, ?_, hstuck⟩
            · rw [Nat.add_right_comm, Nat.add_assoc]
            · rw [List.replicate_succ, follow_cons, happly]
              exact hdone
          · rintro ⟨_ | made, hmade, w, rfl, hdone, hstuck⟩
            · cases hdone
              rw [happly] at hstuck
              cases hstuck
            · rw [List.replicate_succ, follow_cons, happly] at hdone
              refine ⟨made, Nat.lt_of_succ_lt_succ hmade, w, ?_, hdone, hstuck⟩
              rw [Nat.add_right_comm, Nat.add_assoc]

/-! ## Scripts in parts -/

theorem runFrom_append (position : ℕ) (first second : List Step) (z : Zipper α) :
    runFrom position (first ++ second) z =
      (runFrom position first z).bind (runFrom (position + first.length) second) := by
  induction first generalizing position z with
  | nil => rfl
  | cons made first ih =>
      rw [List.cons_append, runFrom, runFrom, List.length_cons, Nat.add_comm first.length 1,
        ← Nat.add_assoc]
      cases repeatMove made.move made.times 0 z with
      | error completed => rfl
      | ok w => exact ih (position + 1) w

theorem runFrom_add (position count : ℕ) (steps : List Step) (z : Zipper α) :
    runFrom (position + count) steps z =
      (runFrom position steps z).mapError fun error => error.after count := by
  induction steps generalizing position z with
  | nil => rfl
  | cons made steps ih =>
      rw [runFrom, runFrom, Nat.add_right_comm]
      cases repeatMove made.move made.times 0 z with
      | error completed => rfl
      | ok w => exact ih (position + 1) w

/-- The second part of a script is run from where the first one leads, and what it reports is
counted on from there. -/
theorem run_append (first second : List Step) (z : Zipper α) :
    run (first ++ second) z =
      (run first z).bind fun w =>
        (run second w).mapError fun error => error.after first.length := by
  rw [run, runFrom_append]
  congr 1
  funext w
  exact runFrom_add 1 first.length second w

theorem run_cons (made : Step) (steps : List Step) (z : Zipper α) :
    run (made :: steps) z =
      match repeatMove made.move made.times 0 z with
      | .error completed => .error ⟨1, made.move, completed⟩
      | .ok w => (run steps w).mapError fun error => error.after 1 := by
  rw [run, runFrom]
  cases repeatMove made.move made.times 0 z with
  | error completed => rfl
  | ok w => exact runFrom_add 1 1 steps w

/-! ## Success and failure -/

theorem mapError_eq_ok_iff {ε ε' β : Type*} {f : ε → ε'} {result : Except ε β} {value : β} :
    result.mapError f = .ok value ↔ result = .ok value := by
  cases result <;> simp [Except.mapError]

theorem mapError_eq_error_iff {ε ε' β : Type*} {f : ε → ε'} {result : Except ε β} {error : ε'} :
    result.mapError f = .error error ↔ ∃ cause, result = .error cause ∧ f cause = error := by
  cases result <;> simp [Except.mapError]

theorem run_eq_ok_iff {steps : List Step} {z w : Zipper α} :
    run steps z = .ok w ↔ follow (moves steps) z = some w := by
  induction steps generalizing z with
  | nil => simp [run, runFrom, moves, follow]
  | cons made steps ih =>
      rw [run_cons, moves_cons, follow_append, Option.bind_eq_some_iff]
      simp only [← repeatMove_eq_ok_iff 0, ← ih]
      cases repeatMove made.move made.times 0 z with
      | error completed => simp
      | ok v => simp [mapError_eq_ok_iff]

theorem StuckAt.cons {made : Step} {steps : List Step} {z v : Zipper α} {error : RunError}
    (hmade : follow (List.replicate made.times made.move) z = some v)
    (hstuck : StuckAt steps v error) : StuckAt (made :: steps) z (error.after 1) := by
  obtain ⟨before, next, after, completed, w, rfl, hcompleted, hdone, hnone⟩ := hstuck
  refine .intro (made :: before) next after completed w rfl hcompleted ?_ hnone
  rw [moves_cons, List.append_assoc, follow_append, hmade]
  exact hdone

theorem stuckAt_of_run {steps : List Step} {z : Zipper α} {error : RunError}
    (hrun : run steps z = .error error) : StuckAt steps z error := by
  induction steps generalizing z error with
  | nil => cases hrun
  | cons made steps ih =>
      rw [run_cons] at hrun
      cases hrepeat : repeatMove made.move made.times 0 z with
      | error completed =>
          rw [hrepeat] at hrun
          cases hrun
          obtain ⟨count, hcount, w, rfl, hdone, hstuck⟩ := repeatMove_eq_error_iff.mp hrepeat
          rw [Nat.zero_add]
          exact .intro [] made steps count w rfl hcount hdone hstuck
      | ok v =>
          rw [hrepeat] at hrun
          obtain ⟨cause, hcause, rfl⟩ := mapError_eq_error_iff.mp hrun
          exact (ih hcause).cons ((repeatMove_eq_ok_iff 0).mp hrepeat)

theorem StuckAt.run_eq {steps : List Step} {z : Zipper α} {error : RunError}
    (hstuck : StuckAt steps z error) : run steps z = .error error := by
  obtain ⟨before, made, after, completed, w, rfl, hcompleted, hdone, hnone⟩ := hstuck
  rw [follow_append, Option.bind_eq_some_iff] at hdone
  obtain ⟨v, hbefore, hdone⟩ := hdone
  have hrepeat : repeatMove made.move made.times 0 v = .error completed :=
    repeatMove_eq_error_iff.mpr
      ⟨completed, hcompleted, w, (Nat.zero_add completed).symm, hdone, hnone⟩
  rw [run_append, run_eq_ok_iff.mpr hbefore]
  simp only [Except.bind, run_cons, hrepeat, Except.mapError, RunError.after, Nat.add_comm 1]

theorem exists_apply_of_mem_jumps {kind : Move} (hkind : kind ∈ Move.jumps) (z : Zipper α) :
    ∃ w, kind.apply z = some w := by
  simp only [Move.jumps, List.mem_cons, List.not_mem_nil, or_false] at hkind
  rcases hkind with rfl | rfl | rfl
  · exact ⟨z.leftmost, rfl⟩
  · exact ⟨z.rightmost, rfl⟩
  · exact ⟨z.top, rfl⟩

/-- No run gets stuck at a jump. -/
theorem StuckAt.move_notMem_jumps {steps : List Step} {z : Zipper α} {error : RunError}
    (hstuck : StuckAt steps z error) : error.move ∉ Move.jumps := by
  obtain ⟨before, made, after, completed, w, -, -, -, hnone⟩ := hstuck
  intro hjump
  obtain ⟨v, happly⟩ := exists_apply_of_mem_jumps hjump w
  cases happly.symm.trans hnone

theorem StuckAt.exists_mem {steps : List Step} {z : Zipper α} {error : RunError}
    (hstuck : StuckAt steps z error) : ∃ made ∈ steps, made.move = error.move := by
  obtain ⟨before, made, after, completed, w, rfl, -, -, -⟩ := hstuck
  exact ⟨made, List.mem_append_right before List.mem_cons_self, rfl⟩

/-- A run comes to what the single moves of its script come to, one after the other, and fails with
the report of the first one without a target, which its text tells as that of no other.  A script in
two parts is run part after part, with the reports of the second counted on from the first.  The
jumps never fail. -/
theorem run_follows_moves (steps : List Step) (z : Zipper α) :
    (∀ w, run steps z = .ok w ↔ follow (moves steps) z = some w) ∧
    (∀ error, run steps z = .error error ↔ StuckAt steps z error) ∧
    (∀ more, run (steps ++ more) z =
      (run steps z).bind fun w => (run more w).mapError fun error => error.after steps.length) ∧
    (∀ error, run steps z = .error error → error.move ∉ Move.jumps) ∧
    ((∀ made ∈ steps, made.move ∈ Move.jumps) → ∃ w, run steps z = .ok w) ∧
    ∀ error, run steps z = .error error →
      error.ToldBy error.message ∧
        ∀ other : RunError, other.message = error.message → other = error := by
  refine ⟨fun w => run_eq_ok_iff, fun error => ⟨stuckAt_of_run, StuckAt.run_eq⟩,
    fun more => run_append steps more z, fun error hrun => (stuckAt_of_run hrun).move_notMem_jumps,
    fun hjumps => ?_, fun error _ =>
      ⟨error.toldBy_message, fun other hmessage => RunError.message_injective hmessage⟩⟩
  cases hrun : run steps z with
  | ok w => exact ⟨w, rfl⟩
  | error error =>
      have hstuck : StuckAt steps z error := stuckAt_of_run hrun
      obtain ⟨made, hmade, hmove⟩ := hstuck.exists_mem
      exact absurd (hmove ▸ hjumps made hmade) hstuck.move_notMem_jumps

/-- Between siblings that have been inserted a script gets stuck in its second step, after two moves
of it.  With two steps before, the step is the fourth. -/
theorem run_follows_moves_until_stuck :
    let z : Zipper Term :=
      ⟨.int 2, [⟨.pair (.int 1) (.int 2), .ofList [.int 7, .int 1], .ofList []⟩]⟩
    let jumps : List Step := [⟨.rightmost, 2⟩, ⟨.leftmost, 1⟩]
    let stuck : List Step := [⟨.leftmost, 1⟩, ⟨.right, 5⟩, ⟨.up, 1⟩]
    (∃ w, run jumps z = .ok w ∧ w.focus = .int 1) ∧
      StuckAt stuck z ⟨2, .right, 2⟩ ∧ Move.right ∉ Move.jumps ∧
      run (jumps ++ stuck) z = .error ⟨4, .right, 2⟩ := by
  intro z jumps stuck
  have hstuck : run stuck z = .error ⟨2, .right, 2⟩ := rfl
  have hjumps : ∀ made ∈ jumps, made.move ∈ Move.jumps := by decide
  obtain ⟨w, hw⟩ := (run_follows_moves jumps z).2.2.2.2.1 hjumps
  have hfocus : run jumps z =
      .ok ⟨.int 1, [⟨.pair (.int 1) (.int 2), .ofList [], .ofList [.int 7, .int 2]⟩]⟩ := rfl
  refine ⟨⟨w, hw, ?_⟩, ((run_follows_moves stuck z).2.1 _).mp hstuck,
    (run_follows_moves stuck z).2.2.2.1 _ hstuck, ?_⟩
  · cases hw.symm.trans hfocus
    rfl
  · exact ((run_follows_moves jumps z).2.2.1 stuck).trans rfl

end Follow

end Script

end TreeCursor
