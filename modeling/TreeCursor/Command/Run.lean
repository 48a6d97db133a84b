import TreeCursor.Command.Basic
import TreeCursor.Json.Printer

/-!
# Running commands

A run gets its settings, starts its log and then carries out its command.  A stage that fails ends
the run with what was printed up to there.
-/

namespace TreeCursor

namespace Settings

/-- The settings of the file that the flag names, or else the variable; without a file they are
the default ones. -/
def discover (flag : Option String) (world : World) : Except SettingsError Settings :=
  match flag, world.configVariable with
  | some path, _ => load path (world.file path)
  | none, some path => if path = "" then .ok {} else load path (world.file path)
  | none, none => .ok {}

/-- The settings with the flags of an invocation in their place. -/
def override (settings : Settings) (invocation : Invocation) : Settings :=
  { settings with
    log :=
      { settings.log with
        level := invocation.logLevel.getD settings.log.level
        format := invocation.logFormat.getD settings.log.format } }

end Settings

/-- The filter that logging starts with, under the given settings. -/
def LogSettings.start (log : LogSettings) (world : World) : Except LogError Filter :=
  match Level.parse log.level, Filter.ofSettings world.logVariable log.level with
  | .error _, _ => .error (.invalidLevel log.level)
  | .ok _, .error _ => .error .brokenFilter
  | .ok _, .ok filter =>
      match log.file.bind world.logFault with
      | some cause => .error (.unopened cause)
      | none => .ok filter

namespace Command

/-- The document of an input; a single hyphen stands for the input stream. -/
def readDocument (world : World) (input : String) : Stage Document :=
  if input = "-" then
    .ofExcept (.reading input) (Document.ofBytes (.ok world.input))
  else do
    let document ← .ofExcept (.reading input) (Document.ofBytes (world.file input))
    .report (.loaded input)
    pure document

/-- The cursor in the document of an input after a move script; the script is read first. -/
def navigate (world : World) (input path : String) : Stage (Zipper Document) := do
  let steps ← Stage.ofExcept (.parsingScript path) (Script.parse path)
  let document ← readDocument world input
  let z ← Stage.ofExcept .moving (Script.run steps (.ofTree document))
  .report (.moved steps.length z.depth)
  pure z

/-- A text is printed as a line. -/
def line (text : String) : Stage Unit :=
  .print (text ++ "\n")

/-- A document is printed. -/
def print (settings : CommandSettings) (document : Document) : Stage Unit :=
  line (if settings.prettyJson then document.pretty else document.compact)

/-- Removal with its report of a refusal. -/
def removeFocus (z : Zipper Document) : Stage (Zipper Document) :=
  match z.remove with
  | .ok w => pure w
  | .error (.atRoot edit) => do
      .report (.rejected edit)
      .ofExcept .removing (.error (.atRoot edit))

/-- The line of a walk for a position; a walk along the leaves has none for a branch. -/
def walkLine (leavesOnly : Bool) (z : Zipper Document) : Stage Unit :=
  if leavesOnly && Tree.isBranch z.focus then
    pure ()
  else
    line (toString z.depth ++ "\t" ++ z.focus.compact)

/-- The walk along some positions after so many others; at its limit it stops with a warning. -/
def walkFrom (leavesOnly : Bool) (limit : Option Nat) : Nat → List (Zipper Document) → Stage Unit
  | _, [] => pure ()
  | seen, z :: positions =>
      if limit = some seen then
        .report (.stopped seen)
      else do
        walkLine leavesOnly z
        walkFrom leavesOnly limit (seen + 1) positions

/-- What a command does, once there are settings, and the exit code that it comes to. -/
def run (settings : Settings) (world : World) : Command → Stage Nat
  | .show input path => do
      let z ← navigate world input path
      line (z.render settings.display)
      pure 0
  | .get input path => do
      let z ← navigate world input path
      print settings.command z.focus
      pure 0
  | .find input equals start dir => do
      let needle ← Stage.ofExcept .parsingEquals (Document.parse equals)
      let z ← navigate world input start
      match z.find dir (· == needle) with
      | some found => do
          line (Script.forRoute found.route)
          pure 0
      | none => do
          .report (.unmatched needle.compact)
          pure 1
  | .replace input path value => do
      let node ← Stage.ofExcept .parsingWith (Document.parse value)
      let z ← navigate world input path
      print settings.command (z.replace node).root
      pure 0
  | .remove input path => do
      let z ← navigate world input path
      let w ← removeFocus z
      print settings.command w.root
      pure 0
  | .walk input leavesOnly => do
      let document ← readDocument world input
      walkFrom leavesOnly settings.command.maxSteps 0 (Zipper.ofTree document).positions
      pure 0

end Command

/-- The settings of a run and the filter of its log, or its first failure. -/
def Invocation.start (invocation : Invocation) (world : World) :
    Except Failure (Settings × Filter) :=
  match Settings.discover invocation.config world with
  | .error e => .error (.loadingConfig e)
  | .ok settings =>
      match (settings.override invocation).validate with
      | .error e => .error (.invalidSettings e)
      | .ok settings =>
          match settings.log.start world with
          | .error e => .error (.initializingLogging e)
          | .ok filter => .ok (settings, filter)

/-- A whole run. -/
def Invocation.run (invocation : Invocation) (world : World) : Observation :=
  match invocation.start world with
  | .error failure => ⟨failure.exitCode, "", some failure, none, [], []⟩
  | .ok (settings, filter) =>
      let log := settings.log
      let stage := invocation.command.run settings world
      let events := .initialized log.level log.format log.file :: stage.events
      let logged := events.filter fun event =>
        filter.passes event.target event.fieldNames event.level
      match stage.result with
      | .error failure =>
          ⟨failure.exitCode, stage.output, some failure, some log, events, logged⟩
      | .ok exitCode => ⟨exitCode, stage.output, none, some log, events, logged⟩

end TreeCursor
