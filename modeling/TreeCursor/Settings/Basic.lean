import TreeCursor.Log.Level
import TreeCursor.Text.Blank
import TreeCursor.Zipper.Render

/-!
# Settings

How a run logs, shows and prints, and what is wrong with settings that cannot be used.
-/

namespace TreeCursor

/-- Why a file cannot be read or written. -/
inductive FileError where
  | missing
  | notText
  | other (text : String)
  deriving DecidableEq, Repr

def FileError.message : FileError → String
  | .missing => "No such file or directory (os error 2)"
  | .notText => "stream did not contain valid UTF-8"
  | .other text => text

/-- The mode of a word. -/
def DisplayMode.parse (word : String) : Except Text.UnknownWord DisplayMode :=
  match Text.lowerAscii word with
  | "formatted" => .ok .formatted
  | "raw" => .ok .raw
  | _ => .error ⟨"display mode", word, ["formatted", "raw"]⟩

structure LogSettings where
  level : String := "warn"
  format : LogFormat := .pretty
  /-- The file that gets all log lines as well. -/
  file : Option String := none
  deriving DecidableEq, Repr

structure CommandSettings where
  /-- Whether documents are printed with one item to a line. -/
  prettyJson : Bool := true
  /-- The most positions that a walk visits. -/
  maxSteps : Option Nat := none
  deriving DecidableEq, Repr

structure Settings where
  log : LogSettings := {}
  display : DisplayStyle := {}
  command : CommandSettings := {}
  deriving DecidableEq, Repr

/-- A setting that has no use. -/
inductive SettingFault where
  | emptyLevel
  | unknownLevel (error : Text.UnknownWord)
  | zeroWidth
  | zeroSteps
  deriving DecidableEq, Repr

namespace SettingFault

/-- The setting that is at fault. -/
def field : SettingFault → String
  | .emptyLevel => "log.level"
  | .unknownLevel _ => "log.level"
  | .zeroWidth => "display.max_width"
  | .zeroSteps => "cli.max_steps"

def reason : SettingFault → String
  | .emptyLevel => "must not be empty"
  | .unknownLevel error => error.message
  | .zeroWidth => "must be at least 1"
  | .zeroSteps => "must be at least 1"

end SettingFault

/-- Why there are no settings. -/
inductive SettingsError where
  | unread (path : String) (cause : FileError)
  | malformed
  | invalid (fault : SettingFault)
  deriving DecidableEq, Repr

def SettingsError.message : SettingsError → String
  | .unread path cause => "failed to read config file " ++ path ++ ": " ++ cause.message
  | .malformed => "failed to parse config: malformed settings"
  | .invalid fault => "invalid config value for " ++ fault.field ++ ": " ++ fault.reason

namespace Settings

/-- The first setting without a use: the level, then the width, then the number of steps. -/
def fault? (settings : Settings) : Option SettingFault :=
  if settings.log.level.toList.all Text.isBlank then
    some .emptyLevel
  else
    match Level.parse settings.log.level with
    | .error e => some (.unknownLevel e)
    | .ok _ =>
        if settings.display.maxWidth = some 0 then some .zeroWidth
        else if settings.command.maxSteps = some 0 then some .zeroSteps
        else none

/-- The settings themselves, if all are of use. -/
def validate (settings : Settings) : Except SettingsError Settings :=
  match settings.fault? with
  | none => .ok settings
  | some fault => .error (.invalid fault)

end Settings

end TreeCursor
