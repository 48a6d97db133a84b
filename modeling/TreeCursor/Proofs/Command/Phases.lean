import TreeCursor.Main
import TreeCursor.Proofs.Settings
import TreeCursor.Proofs.Zipper.Search

/-!
# The phases of a run

The parts of a run that can fail, in the order in which a run goes through them.  The text of a
failure tells by its beginning which phase it is from.

Whether a phase fails is asked of every phase by itself, so that several may fail of which a run
reports only the first.  A phase that needs what another one could not provide does not fail.
-/

namespace TreeCursor

open TreeCursor.Tree
open CommandLine (inputOf)

/-! ## Failures -/

/-- The failure that a computation comes to, if it does not succeed. -/
def Failure.of? {ε β : Type*} (failure : ε → Failure) : Except ε β → Option Failure
  | .ok _ => none
  | .error e => some (failure e)

/-- The parts of a run that can fail. -/
inductive Phase where
  | loading
  | settings
  | logging
  | argument
  | script
  | reading
  | moving
  | removing
  deriving DecidableEq

namespace Phase

/-- The phases before the command. -/
def ofStart : List Phase := [.loading, .settings, .logging]

/-- The phases of the command. -/
def ofCommand : List Phase := [.argument, .script, .reading, .moving, .removing]

/-- All phases in the order in which a run goes through them. -/
def inOrder : List Phase := ofStart ++ ofCommand

/-- What the text of a failure begins with. -/
def opening : Phase → String
  | .loading => "loading config: "
  | .settings => "invalid settings: "
  | .logging => "initializing logging: "
  | .argument => "parsing --"
  | .script => "parsing move script "
  | .reading => "reading "
  | .moving => "move "
  | .removing => "removing node: "

theorem mem_inOrder (phase : Phase) : phase ∈ inOrder := by
  cases phase <;> decide

end Phase

/-- The phase that a failure is from. -/
def Failure.phase : Failure → Phase
  | .loadingConfig _ => .loading
  | .invalidSettings _ => .settings
  | .initializingLogging _ => .logging
  | .parsingEquals _ | .parsingWith _ => .argument
  | .parsingScript _ _ => .script
  | .reading _ _ => .reading
  | .moving _ => .moving
  | .removing _ => .removing

/-- The document of an input; a single hyphen stands for the input stream. -/
def World.document (world : World) (input : String) : Except Error Document :=
  Document.ofBytes (if input = "-" then .ok world.input else world.file input)

/-- The filter that the environment asks for breaks a character, which aborts a run. -/
def World.BreaksFilter (world : World) : Prop :=
  ∃ text, world.logVariable = some text ∧ Filter.parse text = .error .brokenCharacter

namespace Command

/-- The move script of a command; a walk has none. -/
def script? : Command → Option String
  | .show _ path | .get _ path | .find _ _ path _ | .replace _ path _ | .remove _ path => some path
  | .walk _ _ => none

/-- Where a move script leads in the document of an input, if there are both. -/
def arrival? (world : World) (input path : String) : Option (Except RunError (Zipper Document)) :=
  (Script.parse path).toOption.bind fun steps =>
    (world.document input).toOption.map fun document => Script.run steps (.ofTree document)

/-- Where the move script of a command leads. -/
def cursor? (command : Command) (world : World) : Option (Except RunError (Zipper Document)) :=
  command.script?.bind (arrival? world (inputOf command))

/-- The command is a search, and from its start on there is no node equal to what it looks for. -/
inductive Unmatched (world : World) : Command → Prop where
  | intro (input equals start : String) (dir : Direction) (needle : Document) (z : Zipper Document)
      (hneedle : Document.parse equals = .ok needle)
      (hstart : arrival? world input start = some (.ok z))
      (hnone : ¬∃ place node, nodeAt z.root place = some node ∧ dir.Meets z.route place ∧
        (node == needle) = true) :
      Unmatched world (.find input equals start dir)

end Command

/-- The failure of a phase, taken by itself. -/
def Phase.failure? (invocation : Invocation) (world : World) : Phase → Option Failure
  | .loading => Failure.of? .loadingConfig (Settings.discover invocation.config world)
  | .settings => (invocation.settings? world).bind fun settings =>
      Failure.of? .invalidSettings settings.validate
  | .logging => (invocation.settings? world).bind fun settings =>
      Failure.of? .initializingLogging (settings.log.start world)
  | .argument =>
      match invocation.command with
      | .find _ equals _ _ => Failure.of? .parsingEquals (Document.parse equals)
      | .replace _ _ value => Failure.of? .parsingWith (Document.parse value)
      | _ => none
  | .script => invocation.command.script?.bind fun path =>
      Failure.of? (.parsingScript path) (Script.parse path)
  | .reading =>
      Failure.of? (.reading (inputOf invocation.command))
        (world.document (inputOf invocation.command))
  | .moving => (invocation.command.cursor? world).bind (Failure.of? .moving)
  | .removing =>
      match invocation.command with
      | .remove _ _ => (invocation.command.cursor? world).bind fun cursor =>
          cursor.toOption.bind fun z =>
            if z.isRoot then some (.removing (.atRoot .remove)) else none
      | _ => none

/-- The first phase that fails does so with this failure. -/
def Phase.FailsFirst (invocation : Invocation) (world : World) (phase : Phase)
    (failure : Failure) : Prop :=
  ∃ before after, inOrder = before ++ phase :: after ∧
    phase.failure? invocation world = some failure ∧
      ∀ earlier ∈ before, earlier.failure? invocation world = none

/-! ## Texts of failures -/

theorem Failure.of?_eq_some_iff {ε β : Type*} {failure : ε → Failure} {result : Except ε β}
    {f : Failure} : of? failure result = some f ↔ ∃ e, result = .error e ∧ failure e = f := by
  cases result <;> simp [of?]

theorem RunError.message_eq_append (error : RunError) :
    ∃ rest, error.message = "move " ++ rest := by
  simp only [message, String.append_assoc]
  exact ⟨_, rfl⟩

theorem Failure.message_eq_opening_append (failure : Failure) :
    ∃ rest, failure.message = failure.phase.opening ++ rest := by
  cases failure with
  | initializingLogging error => cases error <;> exact ⟨_, rfl⟩
  | parsingEquals error => exact ⟨"equals: " ++ (Error.json error).message, rfl⟩
  | parsingWith error => exact ⟨"with: " ++ (Error.json error).message, rfl⟩
  | parsingScript script error => exact ⟨"`" ++ script ++ "`: " ++ error.message, rfl⟩
  | reading input error =>
      cases error <;> exact ⟨_, (String.append_assoc ..).trans (String.append_assoc ..)⟩
  | moving error => exact error.message_eq_append
  | _ => exact ⟨_, rfl⟩

theorem Phase.eq_of_opening_prefix {phase other : Phase} {text : String}
    (hphase : phase.opening.toList <+: text.toList)
    (hother : other.opening.toList <+: text.toList) : other = phase := by
  have hopenings : ∀ first ∈ inOrder, ∀ second ∈ inOrder,
      first.opening.toList <+: second.opening.toList → first = second := by
    decide +kernel
  -- of two beginnings of one text, one begins with the other
  rcases List.prefix_or_prefix_of_prefix hother hphase with hprefix | hprefix
  · exact hopenings other (mem_inOrder other) phase (mem_inOrder phase) hprefix
  · exact (hopenings phase (mem_inOrder phase) other (mem_inOrder other) hprefix).symm

/-- The text of a failure begins as those of its phase do, and as those of no other. -/
theorem Failure.opening_prefix_iff {failure : Failure} {phase : Phase} :
    phase.opening.toList <+: failure.message.toList ↔ phase = failure.phase := by
  have hopening : failure.phase.opening.toList <+: failure.message.toList := by
    obtain ⟨rest, hmessage⟩ := failure.message_eq_opening_append
    rw [hmessage, String.toList_append]
    exact List.prefix_append _ _
  constructor
  · exact Phase.eq_of_opening_prefix hopening
  · rintro rfl
    exact hopening

theorem Failure.phase_of_of? {ε β : Type*} {failure : ε → Failure} {result : Except ε β}
    {f : Failure} {phase : Phase} (hphase : ∀ e, (failure e).phase = phase)
    (hf : of? failure result = some f) : f.phase = phase := by
  obtain ⟨e, -, rfl⟩ := of?_eq_some_iff.mp hf
  exact hphase e

/-- Every failure of a phase is from that phase. -/
theorem Phase.phase_of_failure? {invocation : Invocation} {world : World} {phase : Phase}
    {failure : Failure} (hfailure : phase.failure? invocation world = some failure) :
    failure.phase = phase := by
  cases phase <;> rw [failure?] at hfailure
  case loading | reading => exact Failure.phase_of_of? (fun _ => rfl) hfailure
  case settings | logging | script | moving =>
    obtain ⟨value, -, hfailure⟩ := Option.bind_eq_some_iff.mp hfailure
    exact Failure.phase_of_of? (fun _ => rfl) hfailure
  case argument =>
    split at hfailure
    · exact Failure.phase_of_of? (fun _ => rfl) hfailure
    · exact Failure.phase_of_of? (fun _ => rfl) hfailure
    · cases hfailure
  case removing =>
    split at hfailure
    · obtain ⟨cursor, -, hfailure⟩ := Option.bind_eq_some_iff.mp hfailure
      obtain ⟨z, -, hfailure⟩ := Option.bind_eq_some_iff.mp hfailure
      split at hfailure
      · cases hfailure
        rfl
      · cases hfailure
    · cases hfailure

end TreeCursor
