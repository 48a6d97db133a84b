import TreeCursor.Log.Level
import TreeCursor.Log.Pattern
import TreeCursor.Text.BytePosition
import TreeCursor.Text.Count

/-!
# Log directives

A directive tells from which level on events pass, for those whose target begins with its own.  It
may also ask for a span that the event is in, and for a field, perhaps with a pattern for the
values of the spans around.  No event of this library is in a span, so that only directives without
a span and without a pattern ever hold for one.

A directive is read without the blanks around it, but its parts are cut out of the text with the
blanks, at the byte positions that they have without them.  After leading blanks the parts are
therefore others than those that stand there, and a position inside a character is a fault of its
own.
-/

namespace TreeCursor

/-- A field that is asked for. -/
structure FieldTest where
  name : String
  pattern : Option String
  deriving DecidableEq, Repr

structure Directive where
  /-- The start of the targets that it holds for; the empty one holds for all. -/
  target : String := ""
  span : Option String := none
  field : Option FieldTest := none
  /-- The least severe level that passes, if any does. -/
  threshold : Option Level := some .trace
  deriving DecidableEq, Repr

/-- Why a text is no directive. -/
inductive DirectiveFault where
  | malformed
  /-- A part would begin or end inside a character. -/
  | brokenCharacter
  deriving DecidableEq, Repr

namespace FieldTest

/-- A name, perhaps with a pattern between an equals sign and the next one. -/
def ofText? (text : List Char) : Option FieldTest :=
  let name := String.ofList (text.takeWhile (· != '='))
  match text.dropWhile (· != '=') with
  | [] => some ⟨name, none⟩
  | _ :: rest =>
      let pattern := rest.takeWhile (· != '=')
      if isPattern pattern then some ⟨name, some (String.ofList pattern)⟩ else none

/-- Whether an event outside all spans has what is asked for. -/
def holds (test : FieldTest) (fields : List String) : Bool :=
  test.pattern.isNone && fields.contains test.name

/-- The order in which tests take precedence, no test at all before any. -/
def precedes : Option FieldTest → Option FieldTest → Bool
  | none, _ => true
  | some _, none => false
  | some test, some other => test.name ≤ other.name

end FieldTest

namespace Directive

/-- The threshold of a rank from nothing to everything. -/
def ofRank? : Nat → Option (Option Level)
  | 0 => some none
  | 1 => some (some .error)
  | 2 => some (some .warn)
  | 3 => some (some .info)
  | 4 => some (some .debug)
  | 5 => some (some .trace)
  | _ => none

/-- The threshold of a word or a rank. -/
def threshold? (word : List Char) : Option (Option Level) :=
  match Text.count word with
  | .ok rank => ofRank? rank
  | .error _ =>
      match Text.lowerAscii (String.ofList word) with
      | "off" => some none
      | "error" => some (some .error)
      | "warn" => some (some .warn)
      | "info" => some (some .info)
      | "debug" => some (some .debug)
      | "trace" => some (some .trace)
      | _ => none

/-- Whether a target may begin with a character. -/
def startsTarget (c : Char) : Bool :=
  Text.isAlphanumeric c || c == '-' || c == ':' || c == '_'

/-- The part of a text between two byte positions. -/
def cut (text : List Char) (start stop : Nat) : Except DirectiveFault (List Char) :=
  match Text.cut? text start stop with
  | none => .error .brokenCharacter
  | some part => .ok part

/-- The directive whose threshold goes from a position to the end; without one all events pass. -/
def withLevel (text : List Char) (directive : Directive) (position : Nat) :
    Except DirectiveFault Directive := do
  let word ← cut text position (Text.byteCount text)
  if word = [] then
    pure directive
  else
    match threshold? word with
    | none => throw .malformed
    | some threshold => pure { directive with threshold }

/-- The directive after the bracket that closes its span. -/
def afterSpan (text : List Char) (directive : Directive) (position : Nat) :
    List Char → Except DirectiveFault Directive
  | [] => .ok directive
  | '=' :: _ => withLevel text directive (position + 1)
  | _ => .error .malformed

/-- The directive after the brace that opens its field. -/
def withField (text : List Char) (directive : Directive) (position : Nat) (s : List Char) :
    Except DirectiveFault Directive :=
  let stop := position + Text.byteCount (s.takeWhile (· != '\x7d'))
  match s.dropWhile (· != '\x7d') with
  | [] => .error .malformed
  | _ :: rest => do
      let part ← cut text position stop
      if part = [] then
        throw .malformed
      match FieldTest.ofText? part, rest with
      | some field, ']' :: rest => afterSpan text { directive with field } (stop + 2) rest
      | _, _ => throw .malformed

/-- The directive after the bracket that opens its span. -/
def withSpan (text : List Char) (directive : Directive) (position : Nat) (s : List Char) :
    Except DirectiveFault Directive :=
  let isName (c : Char) : Bool := c != ']' && c != '\x7b'
  let stop := position + Text.byteCount (s.takeWhile isName)
  match s.dropWhile isName with
  | ']' :: rest => do
      let span ← cut text position stop
      afterSpan text { directive with span := some (String.ofList span) } (stop + 1) rest
  | '\x7b' :: rest => do
      let span ← cut text position stop
      let span := if span = [] then none else some (String.ofList span)
      withField text { directive with span } (stop + 1) rest
  | _ => .error .malformed

/-- The directive of a text.  A word that is no threshold is a target, all of whose events pass. -/
def parse (text : List Char) : Except DirectiveFault Directive :=
  let isName (c : Char) : Bool := c != '=' && c != '['
  match Text.trim text with
  | [] => .error .malformed
  | '[' :: rest => withSpan text {} 1 rest
  | c :: rest =>
      if startsTarget c then
        let stop := c.utf8Size + Text.byteCount (rest.takeWhile isName)
        match rest.dropWhile isName with
        | [] =>
            match threshold? text with
            | some threshold => .ok { threshold }
            | none => .ok { target := String.ofList text }
        | '=' :: _ => do
            let target ← cut text 0 stop
            withLevel text { target := String.ofList target } (stop + 1)
        | _ :: rest => do
            let target ← cut text 0 stop
            withSpan text { target := String.ofList target } (stop + 1) rest
      else
        .error .malformed

/-- Whether a directive holds for the events of a target with the given fields. -/
def holds (directive : Directive) (target : String) (fields : List String) : Bool :=
  directive.span.isNone && directive.target.toList.isPrefixOf target.toList &&
    directive.field.all fun test => test.holds fields

/-- Whether the second directive decides where both hold: the one with the longer target does, then
the one whose field comes later, and at last the one given later. -/
def yieldsTo (directive other : Directive) : Bool :=
  directive.target.length < other.target.length ||
    (directive.target.length == other.target.length &&
      FieldTest.precedes directive.field other.field)

end Directive

end TreeCursor
