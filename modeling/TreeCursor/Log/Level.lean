import TreeCursor.Text.Choice

/-!
# Log levels and formats

How severe an event is, and how its line looks.
-/

namespace TreeCursor

/-- The severity of an event, from the least to the most severe. -/
inductive Level where
  | trace
  | debug
  | info
  | warn
  | error
  deriving DecidableEq, Repr

namespace Level

def severity : Level → Nat
  | .trace => 0
  | .debug => 1
  | .info => 2
  | .warn => 3
  | .error => 4

/-- Whether an event of the second level is severe enough for the first. -/
def admits (threshold level : Level) : Bool :=
  threshold.severity ≤ level.severity

instance : Ord Level where
  compare a b := compare a.severity b.severity

/-- The name in a log line. -/
def name : Level → String
  | .trace => "TRACE"
  | .debug => "DEBUG"
  | .info => "INFO"
  | .warn => "WARN"
  | .error => "ERROR"

/-- The level of a word. -/
def parse (word : String) : Except Text.UnknownWord Level :=
  match Text.lowerAscii word with
  | "trace" => .ok .trace
  | "debug" => .ok .debug
  | "info" => .ok .info
  | "warn" => .ok .warn
  | "warning" => .ok .warn
  | "error" => .ok .error
  | _ => .error ⟨"log level", word, ["trace", "debug", "info", "warn", "error"]⟩

end Level

inductive LogFormat where
  | pretty
  | json
  deriving DecidableEq, Repr

namespace LogFormat

def name : LogFormat → String
  | .pretty => "pretty"
  | .json => "json"

/-- The format of a word. -/
def parse (word : String) : Except Text.UnknownWord LogFormat :=
  match Text.lowerAscii word with
  | "pretty" => .ok .pretty
  | "json" => .ok .json
  | _ => .error ⟨"log format", word, ["pretty", "json"]⟩

end LogFormat

end TreeCursor
