import TreeCursor.Log.Directive

/-!
# Log filters

A filter is a list of directives.  Of those that hold for an event the most specific decides
whether it passes, and an event that none holds for does not pass.
-/

namespace TreeCursor

/-- The directives of a filter, in the order they are given. -/
structure Filter where
  directives : List Directive
  deriving DecidableEq, Repr

namespace Filter

/-- The parts of a text between commas. -/
def splitCommas : List Char → List (List Char)
  | [] => [[]]
  | c :: rest =>
      if c = ',' then
        [] :: splitCommas rest
      else
        match splitCommas rest with
        | [] => [[c]]
        | part :: parts => (c :: part) :: parts

/-- The filter of some directives; without any, only errors pass. -/
def ofDirectives (directives : List Directive) : Filter :=
  if directives = [] then ⟨[{ threshold := some .error }]⟩ else ⟨directives⟩

/-- The texts of the directives between commas. -/
def parts (text : String) : List (List Char) :=
  (splitCommas text.toList).filter (· ≠ [])

/-- The filter of a text, or the fault of its first part that is no directive. -/
def parse (text : String) : Except DirectiveFault Filter :=
  ((parts text).mapM Directive.parse).map ofDirectives

/-- The directive that decides about an event, of those that hold for it. -/
def deciding? (filter : Filter) (target : String) (fields : List String) : Option Directive :=
  (filter.directives.filter fun directive => directive.holds target fields).foldl
    (fun best directive =>
      match best with
      | none => some directive
      | some best => if best.yieldsTo directive then some directive else some best) none

/-- Whether an event passes that has the given target, fields and level. -/
def passes (filter : Filter) (target : String) (fields : List String) (level : Level) : Bool :=
  match filter.deciding? target fields with
  | none => false
  | some directive => directive.threshold.any fun threshold => threshold.admits level

/-- The filter of a level, where parts that are no directives are left out. -/
def ofLevel (level : String) : Filter :=
  ofDirectives ((parts level).filterMap fun part => (Directive.parse part).toOption)

/-- The filter of a run: the one that the environment asks for, or the one of the configured level
if there is none or it is malformed. -/
def ofSettings (requested : Option String) (level : String) : Except DirectiveFault Filter :=
  match requested.map parse with
  | none => .ok (ofLevel level)
  | some (.ok filter) => .ok filter
  | some (.error .malformed) => .ok (ofLevel level)
  | some (.error .brokenCharacter) => .error .brokenCharacter

end Filter

end TreeCursor
