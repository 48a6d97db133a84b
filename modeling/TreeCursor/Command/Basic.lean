import TreeCursor.Error
import TreeCursor.Log.Event
import TreeCursor.Log.Filter
import TreeCursor.Script.Run
import TreeCursor.Settings.Decode

/-!
# Commands

What is asked of a run, what it finds in its surroundings, and what it leaves behind.
-/

namespace TreeCursor

inductive Command where
  | show (input path : String)
  | get (input path : String)
  | find (input equals start : String) (dir : Direction)
  | replace (input path value : String)
  | remove (input path : String)
  | walk (input : String) (leavesOnly : Bool)
  deriving DecidableEq, Repr

/-- A command and the flags that go before the settings. -/
structure Invocation where
  config : Option String := none
  logLevel : Option String := none
  logFormat : Option LogFormat := none
  command : Command
  deriving DecidableEq, Repr

/-- What a run can read. -/
structure World where
  input : ByteArray
  file : String → Except FileError ByteArray
  /-- The variable that names the settings file. -/
  configVariable : Option String
  /-- The variable that holds a log filter. -/
  logVariable : Option String
  /-- Why a log file cannot be opened, if so. -/
  logFault : String → Option FileError

/-- Why a run fails, which tells the stage it fails at. -/
inductive Failure where
  | loadingConfig (error : SettingsError)
  | invalidSettings (error : SettingsError)
  | initializingLogging (error : LogError)
  | parsingEquals (error : ParseError)
  | parsingWith (error : ParseError)
  | parsingScript (script : String) (error : ScriptError)
  | reading (input : String) (error : Error)
  | moving (error : RunError)
  | removing (error : EditError)
  deriving DecidableEq, Repr

namespace Failure

/-- A message and that of its cause. -/
def withCause (message : String) (cause : Option FileError) : String :=
  match cause with
  | none => message
  | some cause => message ++ ": " ++ cause.message

/-- The message of a failure to get settings; the cause of a read error is given once more. -/
def settingsMessage (error : SettingsError) : String :=
  match error with
  | .unread _ cause => withCause error.message (some cause)
  | _ => error.message

def message : Failure → String
  | .loadingConfig error => "loading config: " ++ settingsMessage error
  | .invalidSettings error => "invalid settings: " ++ settingsMessage error
  | .initializingLogging (.unopened cause) =>
      "initializing logging: " ++ withCause (LogError.unopened cause).message (some cause)
  | .initializingLogging error => "initializing logging: " ++ error.message
  | .parsingEquals error => "parsing --equals: " ++ (Error.json error).message
  | .parsingWith error => "parsing --with: " ++ (Error.json error).message
  | .parsingScript script error => "parsing move script `" ++ script ++ "`: " ++ error.message
  | .reading input (.file cause) =>
      "reading " ++ input ++ ": " ++ withCause (Error.file cause).message (some cause)
  | .reading input error => "reading " ++ input ++ ": " ++ error.message
  | .moving error => error.message
  | .removing error => "removing node: " ++ error.message

/-- Whether a failure aborts the run instead of ending it in good order. -/
def aborts : Failure → Bool
  | .initializingLogging .brokenFilter => true
  | _ => false

def exitCode (failure : Failure) : Nat :=
  if failure.aborts then 101 else 2

/-- What a failed run says; an aborted one does not name the command. -/
def report (failure : Failure) : String :=
  if failure.aborts then failure.message else "tz: " ++ failure.message

end Failure

/-- A part of a run: what it prints, the events that it reports, and what it comes to. -/
structure Stage (β : Type) where
  output : String
  events : List Event
  result : Except Failure β

namespace Stage

/-- A stage after another, unless that one fails.  What either of them prints and reports is kept,
also if the second fails. -/
def andThen {β γ : Type} (stage : Stage β) (next : β → Stage γ) : Stage γ :=
  match stage.result with
  | .error e => ⟨stage.output, stage.events, .error e⟩
  | .ok value =>
      let last := next value
      ⟨stage.output ++ last.output, stage.events ++ last.events, last.result⟩

instance : Monad Stage where
  pure value := ⟨"", [], .ok value⟩
  bind := andThen

/-- A stage that prints a text. -/
def print (text : String) : Stage Unit :=
  ⟨text, [], .ok ()⟩

/-- A stage that reports an event. -/
def report (event : Event) : Stage Unit :=
  ⟨"", [event], .ok ()⟩

/-- A stage that neither prints nor reports anything. -/
def ofExcept {ε β : Type} (failure : ε → Failure) : Except ε β → Stage β
  | .ok value => ⟨"", [], .ok value⟩
  | .error e => ⟨"", [], .error (failure e)⟩

end Stage

/-- What a run leaves behind. -/
structure Observation where
  exitCode : Nat
  output : String
  failure : Option Failure
  /-- The log settings, once logging has started. -/
  log : Option LogSettings
  /-- The events of the run since then. -/
  events : List Event
  /-- Those of them that the filter lets pass. -/
  logged : List Event

/-- The lines of the log, which go to the error stream and to the log file if there is one. -/
def Observation.logLines (observation : Observation) : List String :=
  match observation.log with
  | none => []
  | some log => observation.logged.map (Event.line log.format)

end TreeCursor
