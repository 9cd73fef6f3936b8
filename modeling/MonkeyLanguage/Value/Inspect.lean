-- SUMMARY: The printable form of values.
import MonkeyLanguage.Node.Render
import MonkeyLanguage.Value

/-!
# Printable form

`Value.inspect` is what a program prints and what the shell shows. Strings are
printed as they are, also inside arrays and hashes. The statements of a function
are printed one to a line.
-/

namespace MonkeyLanguage

/-- The printable form of a key. -/
def HashKey.inspect : HashKey → String
  | integer value => toString value
  | string text => text
  | boolean value => if value then "true" else "false"

namespace Value

/-- The printable form of a function. -/
def inspectFunction (parameters : List Node) (body : Node) : String :=
  "fn(" ++ Text.commaSeparated (parameters.map Node.render) ++ ") \x7b\n" ++
    String.intercalate "\n" (body.statements.map Node.render) ++ "\n\x7d"

mutual

/-- The printable form of a value. -/
def inspect : Value → String
  | integer value => toString value
  | string text => text
  | boolean value => if value then "true" else "false"
  | null => "null"
  | returned value => value.inspect
  | error cause => "ERROR: " ++ cause.message
  | builtin _ => "builtin function"
  | closure _ parameters body _ => inspectFunction parameters body
  | array elements => "[" ++ Text.commaSeparated (inspectAll elements) ++ "]"
  | hash entries => "\x7b" ++ Text.commaSeparated (inspectEntries entries) ++ "\x7d"

/-- The printable forms of several values. -/
def inspectAll : List Value → List String
  | [] => []
  | value :: rest => value.inspect :: inspectAll rest

/-- The printable forms of the entries of a hash. -/
def inspectEntries : List (HashKey × Value) → List String
  | [] => []
  | (key, value) :: rest => (key.inspect ++ ": " ++ value.inspect) :: inspectEntries rest

end

end Value

end MonkeyLanguage
