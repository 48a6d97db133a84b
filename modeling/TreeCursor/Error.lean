import TreeCursor.Json.Parser
import TreeCursor.Settings.Basic
import TreeCursor.Zipper.Edit

/-!
# Errors of the library

Whatever can go wrong in one type, where the message says first which part it comes from.
-/

namespace TreeCursor

def ParseError.message : ParseError → String
  | .malformed => "malformed text"
  | .endOfText => "unexpected end of text"

/-- Why logging does not start. -/
inductive LogError where
  | invalidLevel (level : String)
  /-- The filter that the environment asks for breaks a character. -/
  | brokenFilter
  | unopened (cause : FileError)
  deriving DecidableEq, Repr

def LogError.message : LogError → String
  | .invalidLevel level => "invalid log level: " ++ level
  | .brokenFilter => "a part of the log filter begins or ends inside a character"
  | .unopened cause => "failed to create log file: " ++ cause.message

inductive Error where
  | zipper (error : EditError)
  | settings (error : SettingsError)
  | log (error : LogError)
  | file (error : FileError)
  | json (error : ParseError)
  deriving DecidableEq, Repr

def Error.message : Error → String
  | .zipper error => "Zipper error: " ++ error.message
  | .settings error => "Config error: " ++ error.message
  | .log error => "Logging error: " ++ error.message
  | .file error => "I/O error: " ++ error.message
  | .json error => "JSON error: " ++ error.message

/-- The document that the bytes of a file or stream hold. -/
def Document.ofBytes (content : Except FileError ByteArray) : Except Error Document :=
  match content with
  | .error e => .error (.file e)
  | .ok bytes =>
      match Document.read bytes with
      | .ok document => .ok document
      | .error .notText => .error (.file .notText)
      | .error (.parse e) => .error (.json e)

end TreeCursor
