import TreeCursor.Json.Printer
import TreeCursor.Log.Level
import TreeCursor.Text.Literal
import TreeCursor.Zipper.Edit

/-!
# Log events

What a run reports about itself, beside its output.
-/

namespace TreeCursor

/-- A value in a log line. -/
inductive FieldValue where
  | text (value : String)
  | count (value : Nat)
  deriving DecidableEq, Repr

def FieldValue.json : FieldValue → Json
  | .text value => .string value
  | .count value =>
      if h : value < 2 ^ 64 then .number (.int value (Number.inRange_of_lt h)) else .null

def FieldValue.literal : FieldValue → String
  | .text value => String.ofList (Text.literal value)
  | .count value => toString value

structure Event where
  level : Level
  target : String
  message : String
  fields : List (String × FieldValue)
  deriving DecidableEq, Repr

namespace Event

/-- The name of an optional file, as a literal. -/
def fileLiteral : Option String → String
  | none => "None"
  | some path => "Some(" ++ String.ofList (Text.literal path) ++ ")"

def initialized (level : String) (format : LogFormat) (file : Option String) : Event :=
  ⟨.debug, "treezip_core::logging", "Logging initialized",
    [("log_level", .text level), ("log_format", .text format.name),
      ("log_file", .text (fileLiteral file))]⟩

def loaded (path : String) : Event :=
  ⟨.debug, "treezip_core::json", "loaded json document", [("path", .text path)]⟩

def rejected (edit : RootEdit) : Event :=
  ⟨.debug, "treezip_core::edit", "rejected structural edit at tree root", [("op", .text edit.name)]⟩

def moved (steps depth : Nat) : Event :=
  ⟨.debug, "tz::script", "move script applied", [("steps", .count steps), ("depth", .count depth)]⟩

/-- No position of a search has the value that is looked for, given in its compact form. -/
def unmatched (needle : String) : Event :=
  ⟨.info, "tz", "no matching node", [("needle", .text needle)]⟩

def stopped (limit : Nat) : Event :=
  ⟨.warn, "tz", "walk stopped at step limit", [("max_steps", .count limit)]⟩

/-- The names that a filter can ask for; the message is a field among the others. -/
def fieldNames (event : Event) : List String :=
  "message" :: event.fields.map Prod.fst

/-- The members of a log line. -/
def members (event : Event) : List (String × Json) :=
  [("level", .string event.level.name), ("message", .string event.message)] ++
    event.fields.map (fun (name, value) => (name, FieldValue.json value)) ++
    [("target", .string event.target)]

/-- The line of an event in a log of the given format. -/
def line (format : LogFormat) (event : Event) : String :=
  match format with
  | .json => String.ofList (Json.object event.members).compact
  | .pretty =>
      let fields := event.fields.map fun (name, value) => " " ++ name ++ "=" ++ value.literal
      event.level.name ++ " " ++ event.target ++ ": " ++ event.message ++ String.join fields

end Event

end TreeCursor
