/-!
# Words from a fixed choice

Words that name one of a few values, in letters of either case.  ASCII letter case is enough for
them: no character outside ASCII has one of their letters as its small form.
-/

namespace TreeCursor.Text

/-- ASCII capitals as small letters, all other characters as they are. -/
def lowerAscii (text : String) : String :=
  text.map Char.toLower

/-- A word that names none of the values. -/
structure UnknownWord where
  noun : String
  word : String
  expected : List String
  deriving DecidableEq, Repr

def UnknownWord.message (error : UnknownWord) : String :=
  "unknown " ++ error.noun ++ ": " ++ error.word ++ ". Expected one of: " ++
    ", ".intercalate error.expected

end TreeCursor.Text
