-- SUMMARY: What can be wrong with a token sequence.
import MonkeyLanguage.Token

/-!
# Parse errors

Reading a program never stops at an error. Each one is recorded, and reading
goes on behind the broken statement.
-/

namespace MonkeyLanguage

/-- A reason why a token sequence is not a program. -/
inductive ParseError where
  /-- A token of the kind `wanted` had to follow, and one of the kind `found` did. -/
  | expected (wanted found : Kind)
  /-- No expression starts with a token of this kind. -/
  | noOperand (found : Kind)
  /-- The text of an integer token is no numeral, or the number it stands for is too large. -/
  | notAnInteger (literal : String)
  deriving DecidableEq, Inhabited

namespace ParseError

/-- The diagnostic text of an error. -/
def message : ParseError → String
  | expected wanted found =>
    "expected next token to be " ++ wanted.name ++ ", got " ++ found.name ++ " instead"
  | noOperand found => "no prefix parse function for " ++ found.name ++ " found"
  | notAnInteger literal => "could not parse \"" ++ literal ++ "\" as integer"

end ParseError

end MonkeyLanguage
