import TreeCursor.Settings.Basic
import TreeCursor.Toml.Parser

/-!
# Settings from TOML

Every setting may be left out, and tables and keys that are no settings are ignored.
-/

namespace TreeCursor

namespace Toml

/-- The fields of a group, by name or place: a group is a table or an array of its fields in
order, and a date counts as an empty one. -/
def fields? : Toml → Option (String → Nat → Option Toml)
  | .table entries => some fun name _ => entries.lookup name
  | .array items => some fun _ place => items[place]?
  | .date => some fun _ _ => none
  | _ => none

def string? : Toml → Option String
  | .string value => some value
  | _ => none

def boolean? : Toml → Option Bool
  | .boolean value => some value
  | _ => none

def natural? : Toml → Option Nat
  | .integer (.ofNat value) => some value
  | _ => none

/-- One of a few names, as a string or as the only key of a table with nothing in it. -/
def choice? {β : Type} (choices : List (String × β)) : Toml → Option β
  | .string name => choices.lookup name
  | .table [(name, .table [])] => choices.lookup name
  | .table [(name, .array [])] => choices.lookup name
  | _ => none

/-- The value of a field, or the one that it has when it is left out. -/
def fieldOr {β : Type} (default : β) (decode : Toml → Option β) : Option Toml → Option β
  | none => some default
  | some toml => decode toml

end Toml

open Toml

def LogSettings.ofToml? (toml : Toml) : Option LogSettings := do
  let field ← toml.fields?
  let level ← fieldOr "warn" string? (field "level" 0)
  let format ← fieldOr .pretty (choice? [("pretty", .pretty), ("json", .json)]) (field "format" 1)
  let file ← fieldOr none (fun toml => toml.string?.map some) (field "file" 2)
  pure { level, format, file }

def DisplayStyle.ofToml? (toml : Toml) : Option DisplayStyle := do
  let field ← toml.fields?
  let mode ←
    fieldOr .formatted (choice? [("formatted", .formatted), ("raw", .raw)]) (field "mode" 0)
  let markers ← fieldOr true boolean? (field "markers" 1)
  let maxWidth ← fieldOr none (fun toml => toml.natural?.map some) (field "max_width" 2)
  pure { mode, markers, maxWidth }

def CommandSettings.ofToml? (toml : Toml) : Option CommandSettings := do
  let field ← toml.fields?
  let prettyJson ← fieldOr true boolean? (field "pretty_json" 0)
  let maxSteps ← fieldOr none (fun toml => toml.natural?.map some) (field "max_steps" 1)
  pure { prettyJson, maxSteps }

namespace Settings

/-- The settings of a document's entries. -/
def ofEntries? (entries : List (String × Toml)) : Option Settings := do
  let log ← fieldOr {} LogSettings.ofToml? (entries.lookup "log")
  let display ← fieldOr {} DisplayStyle.ofToml? (entries.lookup "display")
  let command ← fieldOr {} CommandSettings.ofToml? (entries.lookup "cli")
  pure { log, display, command }

/-- The settings that a text holds. -/
def parse (text : String) : Except SettingsError Settings :=
  match (Toml.parse? text).bind ofEntries? with
  | none => .error .malformed
  | some settings => settings.validate

/-- The settings in the file of the given name, with its content. -/
def load (path : String) (content : Except FileError ByteArray) : Except SettingsError Settings :=
  match content with
  | .error e => .error (.unread path e)
  | .ok bytes =>
      match String.fromUTF8? bytes with
      | none => .error (.unread path .notText)
      | some text => parse text

end Settings

end TreeCursor
