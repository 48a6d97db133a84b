import Mathlib.Data.Nat.Notation
import TreeCursor.Command.Run

/-!
# Stages of a run

A stage after another begins with what the first one prints and reports, and goes on only if that
does not fail.  So what holds of the stages of a command holds of the command.  A stage may print
and fail after that; a stage that begins with silent ones does so only if what follows them does.
-/

namespace TreeCursor.Stage

variable {β γ : Type} {stage : Stage β} {next : β → Stage γ} {value : β}

theorem bind_of_ok (hstage : stage.result = .ok value) :
    stage >>= next =
      ⟨stage.output ++ (next value).output, stage.events ++ (next value).events,
        (next value).result⟩ := by
  change stage.andThen next = _
  rw [andThen, hstage]

theorem bind_of_error {failure : Failure} (hstage : stage.result = .error failure) :
    stage >>= next = ⟨stage.output, stage.events, .error failure⟩ := by
  change stage.andThen next = _
  rw [andThen, hstage]

/-! ## Events -/

section Reports

variable {p : Event → Prop}

/-- All events of a stage have the property. -/
def Reports (p : Event → Prop) (stage : Stage β) : Prop :=
  ∀ event ∈ stage.events, p event

theorem reports_pure (value : β) : Reports p (pure value : Stage β) :=
  List.forall_mem_nil p

theorem reports_print (text : String) : Reports p (print text) :=
  List.forall_mem_nil p

theorem reports_report {event : Event} (hevent : p event) : Reports p (report event) :=
  List.forall_mem_singleton.mpr hevent

theorem reports_ofExcept {ε : Type} (failure : ε → Failure) (result : Except ε β) :
    Reports p (ofExcept failure result) := by
  cases result <;> exact List.forall_mem_nil p

theorem reports_bind (hstage : stage.Reports p) (hnext : ∀ value, (next value).Reports p) :
    Reports p (stage >>= next) := by
  cases hresult : stage.result with
  | error failure =>
      rw [bind_of_error hresult]
      exact hstage
  | ok value =>
      rw [bind_of_ok hresult]
      exact List.forall_mem_append.mpr ⟨hstage, hnext value⟩

end Reports

/-! ## Output -/

/-- The stage prints nothing. -/
def Silent (stage : Stage β) : Prop :=
  stage.output = ""

/-- The stage prints nothing if it fails. -/
def FailsSilently (stage : Stage β) : Prop :=
  ∀ failure, stage.result = .error failure → stage.Silent

theorem silent_pure (value : β) : Silent (pure value : Stage β) := rfl

theorem silent_report (event : Event) : Silent (report event) := rfl

theorem silent_ofExcept {ε : Type} (failure : ε → Failure) (result : Except ε β) :
    Silent (ofExcept failure result) := by
  cases result <;> rfl

theorem silent_bind (hstage : stage.Silent)
    (hnext : ∀ value, stage.result = .ok value → (next value).Silent) :
    Silent (stage >>= next) := by
  cases hresult : stage.result with
  | error failure =>
      rw [bind_of_error hresult]
      exact hstage
  | ok value =>
      have hlast : (next value).output = "" := hnext value hresult
      rw [bind_of_ok hresult, Silent, hstage, hlast]
      rfl

/-- Silence up to a stage leaves it to that stage whether something is printed before a failure. -/
theorem failsSilently_bind (hstage : stage.Silent)
    (hnext : ∀ value, stage.result = .ok value → (next value).FailsSilently) :
    FailsSilently (stage >>= next) := by
  intro failure hfailure
  cases hresult : stage.result with
  | error failure' =>
      rw [bind_of_error hresult]
      exact hstage
  | ok value =>
      rw [bind_of_ok hresult] at hfailure
      have hlast : (next value).output = "" := hnext value hresult failure hfailure
      rw [bind_of_ok hresult, Silent, hstage, hlast]
      rfl

/-! ## Success -/

theorem result_bind_eq_ok_iff {last : γ} :
    (stage >>= next).result = .ok last ↔
      ∃ value, stage.result = .ok value ∧ (next value).result = .ok last := by
  cases hresult : stage.result with
  | error failure => simp [bind_of_error hresult]
  | ok value => simp [bind_of_ok hresult]

theorem result_ofExcept_eq_ok_iff {ε : Type} {failure : ε → Failure} {result : Except ε β} :
    (ofExcept failure result).result = .ok value ↔ result = .ok value := by
  cases result <;> simp [ofExcept]

/-- The stage succeeds with the value and has printed the text. -/
structure Yields (stage : Stage β) (text : String) (value : β) : Prop where
  output : stage.output = text
  result : stage.result = .ok value

theorem Yields.failsSilently {text : String} (hstage : stage.Yields text value) :
    stage.FailsSilently := by
  intro failure hfailure
  cases hstage.result.symm.trans hfailure

theorem yields_pure (value : β) : Yields (pure value : Stage β) "" value := ⟨rfl, rfl⟩

theorem yields_print (text : String) : (print text).Yields text () := ⟨rfl, rfl⟩

theorem yields_report (event : Event) : (report event).Yields "" () := ⟨rfl, rfl⟩

theorem yields_ofExcept {ε : Type} {failure : ε → Failure} {result : Except ε β}
    (hresult : result = .ok value) : (ofExcept failure result).Yields "" value := by
  rw [hresult]
  exact ⟨rfl, rfl⟩

/-- What silent stages come to is handed on. -/
theorem yields_bind {text : String} {last : γ} (hstage : stage.Yields "" value)
    (hnext : (next value).Yields text last) : Yields (stage >>= next) text last := by
  rw [bind_of_ok hstage.result, hstage.output, hnext.output, hnext.result, String.empty_append]
  exact ⟨rfl, rfl⟩

/-- A stage whose value gives way to another one still prints the same. -/
theorem yields_bind_pure {text : String} (hstage : stage.Yields text value) (last : γ) :
    Yields (stage >>= fun _ => pure last) text last := by
  rw [bind_of_ok hstage.result, hstage.output]
  exact ⟨String.append_empty, rfl⟩

end TreeCursor.Stage
