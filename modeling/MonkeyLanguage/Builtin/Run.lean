-- SUMMARY: What the built-in functions do.
import MonkeyLanguage.Console
import MonkeyLanguage.Value.Inspect

/-!
# Running built-in functions

A built-in function checks its own arguments and answers with an error if they
do not fit. The printing ones print the printable forms of their arguments.
-/

namespace MonkeyLanguage.Builtin

/-- The length of its only argument: characters of a string, elements of an array. -/
def runLength : List Value → Value
  | [.string text] => .integer text.length
  | [.array elements] => .integer elements.length
  | [other] => .error (.noLength other.type)
  | arguments => .error (.wrongArgumentCount arguments.length 1)

/-- Print all arguments on a line. -/
def runPrintLine (console : Console) : List Value → Value × Console
  | [] => (.error .noArguments, console)
  | arguments => (.null, console.printLine (arguments.map Value.inspect))

/-- Print the first argument as a format for the others. -/
def runPrintFormatted (console : Console) : List Value → Value × Console
  | [] => (.error .noArguments, console)
  | format :: arguments =>
    match console.printFormatted? format.inspect (arguments.map Value.inspect) with
    | some console => (.null, console)
    | none =>
      (.error (.wrongFormatCount arguments.length (Format.argumentCount format.inspect)), console)

/-- The value of a call, and the console after it. -/
def run (builtin : Builtin) (arguments : List Value) (console : Console) : Value × Console :=
  match builtin with
  | length => (runLength arguments, console)
  | printFormatted => runPrintFormatted console arguments
  | printLine => runPrintLine console arguments

end MonkeyLanguage.Builtin
