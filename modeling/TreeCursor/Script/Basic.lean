import TreeCursor.Text.Blank
import TreeCursor.Text.Count

/-!
# Move scripts

A script is a sequence of steps between commas and blanks.  A step is the word of a move, perhaps
with an asterisk and the number of times it is made.
-/

namespace TreeCursor

inductive Move where
  | down
  | up
  | left
  | right
  | leftmost
  | rightmost
  | next
  | prev
  | top
  deriving DecidableEq, Repr

/-- A move made so many times in a row. -/
structure Step where
  move : Move
  times : Nat
  deriving DecidableEq, Repr

/-- Why a step is not read, with its text. -/
inductive ScriptError where
  | badCount (token : List Char) (cause : Text.CountError)
  | zeroCount (token : List Char)
  | unknownMove (word : List Char)
  deriving DecidableEq, Repr

namespace ScriptError

def message : ScriptError → String
  | .badCount token cause =>
      "bad repeat count in `" ++ String.ofList token ++ "`: " ++ cause.message
  | .zeroCount token => "repeat count in `" ++ String.ofList token ++ "` must be at least 1"
  | .unknownMove word => "unknown move `" ++ String.ofList word ++ "`"

end ScriptError

namespace Move

/-- The long word of a move. -/
def word : Move → List Char
  | .down => "down".toList
  | .up => "up".toList
  | .left => "left".toList
  | .right => "right".toList
  | .leftmost => "leftmost".toList
  | .rightmost => "rightmost".toList
  | .next => "next".toList
  | .prev => "prev".toList
  | .top => "top".toList

/-- The move of a word in small letters, long or short. -/
def ofWord? (word : List Char) : Option Move :=
  match String.ofList word with
  | "down" => some .down
  | "d" => some .down
  | "up" => some .up
  | "u" => some .up
  | "left" => some .left
  | "l" => some .left
  | "right" => some .right
  | "r" => some .right
  | "leftmost" => some .leftmost
  | "rightmost" => some .rightmost
  | "next" => some .next
  | "n" => some .next
  | "prev" => some .prev
  | "p" => some .prev
  | "top" => some .top
  | _ => none

end Move

namespace Step

/-- A step as it is written: a single move has no count. -/
def text (step : Step) : List Char :=
  if step.times = 1 then step.move.word
  else step.move.word ++ '*' :: Nat.toDigits 10 step.times

end Step

namespace Script

/-- Whether a character separates steps. -/
def isSeparator (c : Char) : Bool :=
  c == ',' || Text.isBlank c

/-- The maximal runs of characters between separators. -/
def tokens : List Char → List (List Char)
  | [] => []
  | [c] => if isSeparator c then [] else [[c]]
  | c :: d :: rest =>
      if isSeparator c then
        tokens (d :: rest)
      else if isSeparator d then
        [c] :: tokens (d :: rest)
      else
        match tokens (d :: rest) with
        | [] => [[c]]
        | token :: others => (c :: token) :: others

/-- The move of a word, whose letters may be of either case. -/
def move (word : List Char) : Except ScriptError Move :=
  match Move.ofWord? (word.map Char.toLower) with
  | some move => .ok move
  | none => .error (.unknownMove word)

/-- The step of a token.  The first asterisk divides it, and its count is looked at first. -/
def step (token : List Char) : Except ScriptError Step :=
  let word := token.takeWhile (· != '*')
  match token.dropWhile (· != '*') with
  | [] => (move word).map fun move => ⟨move, 1⟩
  | _ :: digits =>
      match Text.count digits with
      | .error cause => .error (.badCount token cause)
      | .ok 0 => .error (.zeroCount token)
      | .ok times => (move word).map fun move => ⟨move, times⟩

/-- The steps of a script. -/
def parse (text : String) : Except ScriptError (List Step) :=
  (tokens text.toList).mapM step

/-- Steps with commas between them. -/
def render (steps : List Step) : List Char :=
  List.intercalate [','] (steps.map Step.text)

/-- The steps from a node to its child with the given index. -/
def stepsTo (index : Nat) : List Step :=
  if index = 0 then [⟨.down, 1⟩] else [⟨.down, 1⟩, ⟨.right, index⟩]

/-- The script that leads from the root along a route. -/
def forRoute (route : List Nat) : String :=
  String.ofList (render (route.flatMap stepsTo))

end Script

end TreeCursor
