import TreeCursor.Command.Basic

/-!
# Command-line arguments

An invocation from the words of a command line.  Options come as `--name=value` or as two words,
each at most once; those of all commands may stand before the command or after it.
-/

namespace TreeCursor

/-- Why words make no invocation. -/
inductive UsageError where
  | unknownCommand (word : String)
  | unknownOption (name : String)
  | unexpectedWord (word : String)
  | unexpectedValue (name : String)
  | missingValue (name : String)
  | repeated (name : String)
  | missing (what : String)
  | badFormat (error : Text.UnknownWord)
  deriving DecidableEq, Repr

namespace UsageError

def message : UsageError → String
  | .unknownCommand word => "unrecognized subcommand '" ++ word ++ "'"
  | .unknownOption name => "unexpected argument '--" ++ name ++ "' found"
  | .unexpectedWord word => "unexpected argument '" ++ word ++ "' found"
  | .unexpectedValue name => "unexpected value for '--" ++ name ++ "'"
  | .missingValue name => "a value is required for '--" ++ name ++ "' but none was supplied"
  | .repeated name => "the argument '--" ++ name ++ "' cannot be used multiple times"
  | .missing what => "a required argument was not provided: " ++ what
  | .badFormat error => "invalid value for '--log-format': " ++ error.message

end UsageError

namespace Invocation

/-- The options of all commands. -/
def commonOptions : List String := ["config", "log-level", "log-format"]

/-- The options of a command that have a value. -/
def valueOptions : String → List String
  | "show" => ["path"]
  | "get" => ["path"]
  | "find" => ["equals", "from"]
  | "replace" => ["path", "with"]
  | "remove" => ["path"]
  | _ => []

/-- The options of a command without a value. -/
def switches : String → List String
  | "find" => ["prev"]
  | "walk" => ["leaves-only"]
  | _ => []

def commands : List String := ["show", "get", "find", "replace", "remove", "walk"]

/-- What is known of an invocation after some of its words. -/
structure Words where
  command : Option String := none
  input : Option String := none
  /-- The options, the last one first, each with whether it came after the command. -/
  options : List (String × Bool × String) := []
  switches : List String := []

namespace Words

def addWord (words : Words) (word : String) : Except UsageError Words :=
  match words.command, words.input with
  | none, _ =>
      if commands.contains word then .ok { words with command := some word }
      else .error (.unknownCommand word)
  | some _, none => .ok { words with input := some word }
  | some _, some _ => .error (.unexpectedWord word)

/-- Whether an option with a value is known at this point. -/
def takesValue (words : Words) (name : String) : Bool :=
  commonOptions.contains name || words.command.any fun command =>
    (valueOptions command).contains name

def isSwitch (words : Words) (name : String) : Bool :=
  words.command.any fun command => (Invocation.switches command).contains name

def addOption (words : Words) (name value : String) : Except UsageError Words :=
  let late := words.command.isSome
  if words.options.any fun (name', late', _) => name' == name && late' == late then
    .error (.repeated name)
  else
    .ok { words with options := (name, late, value) :: words.options }

def addSwitch (words : Words) (name : String) : Except UsageError Words :=
  if words.switches.contains name then .error (.repeated name)
  else .ok { words with switches := name :: words.switches }

def option? (words : Words) (name : String) : Option String :=
  words.options.lookup name |>.map Prod.snd

def require (words : Words) (name : String) : Except UsageError String :=
  match words.option? name with
  | some value => .ok value
  | none => .error (.missing ("--" ++ name))

end Words

/-- A word that is no option, or an option with the value that it comes with, if any. -/
inductive Shape where
  | plain
  | option (name : String) (value : Option String)

def shapeOf (word : String) : Shape :=
  match word.toList with
  | '-' :: '-' :: rest =>
      let name := String.ofList (rest.takeWhile (· != '='))
      match rest.dropWhile (· != '=') with
      | [] => .option name none
      | _ :: value => .option name (some (String.ofList value))
  | ['-'] => .plain
  | '-' :: rest => .option (String.ofList rest) none
  | _ => .plain

/-- The words of a command line, one after the other; after two hyphens none is an option. -/
def collect : Words → List String → Except UsageError Words
  | words, [] => .ok words
  | words, "--" :: rest => rest.foldlM Words.addWord words
  | words, word :: rest =>
      match shapeOf word with
      | .plain =>
          match words.addWord word with
          | .error e => .error e
          | .ok words => collect words rest
      | .option name value =>
          if words.isSwitch name then
            match value, words.addSwitch name with
            | some _, _ => .error (.unexpectedValue name)
            | none, .error e => .error e
            | none, .ok words => collect words rest
          else if words.takesValue name then
            match value, rest with
            | some value, rest =>
                match words.addOption name value with
                | .error e => .error e
                | .ok words => collect words rest
            | none, [] => .error (.missingValue name)
            | none, next :: rest =>
                match shapeOf next, words.addOption name next with
                | .option _ _, _ => .error (.missingValue name)
                | .plain, .error e => .error e
                | .plain, .ok words => collect words rest
          else
            .error (.unknownOption name)

/-- The command of collected words. -/
def commandOf (words : Words) : Except UsageError Command :=
  match words.command, words.input with
  | none, _ => .error (.missing "a command")
  | some _, none => .error (.missing "the input")
  | some name, some input =>
      let path := (words.option? "path").getD ""
      match name with
      | "show" => .ok (.show input path)
      | "get" => .ok (.get input path)
      | "find" => do
          let equals ← words.require "equals"
          let dir := if words.switches.contains "prev" then Direction.prev else .next
          pure (.find input equals ((words.option? "from").getD "") dir)
      | "replace" => do
          let path ← words.require "path"
          let value ← words.require "with"
          pure (.replace input path value)
      | "remove" => do
          let path ← words.require "path"
          pure (.remove input path)
      | _ => .ok (.walk input (words.switches.contains "leaves-only"))

/-- The invocation of a command line; the name of a settings file is not empty. -/
def ofArguments (arguments : List String) : Except UsageError Invocation := do
  let words ← collect {} arguments
  let config := words.option? "config"
  if config = some "" then
    throw (.missingValue "config")
  let logFormat ←
    match words.option? "log-format" with
    | none => pure none
    | some word =>
        match LogFormat.parse word with
        | .ok format => pure (some format)
        | .error e => throw (.badFormat e)
  let command ← commandOf words
  pure
    { config
      logLevel := words.option? "log-level"
      logFormat
      command }

end Invocation

end TreeCursor
