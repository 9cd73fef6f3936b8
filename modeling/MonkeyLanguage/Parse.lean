-- SUMMARY: Programs read from tokens and from source text.
import MonkeyLanguage.Parser.Rules

/-!
# Parsing

`Parse.ofFeed` reads a whole program. It always answers: with the statements
that could be read, and with the errors in the order in which they were met. A
program with errors is not meant to be run.
-/

namespace MonkeyLanguage

/-- A program tree and the errors met while reading it. -/
structure Parse where
  program : Node
  errors : List ParseError

namespace Parse

/-- Read a program from a feed. Expressions nest at most as deep as there are tokens. -/
def ofFeed (feed : Feed) (limit : Numeral.DigitLimit := Numeral.usualLimit) : Parse :=
  match Parser.programStatements (Parser.expression limit (feed.ahead.length + 1)) feed with
  | some reply => ⟨.program feed.current (reply.value?.getD []), reply.errors⟩
  | none => ⟨.program feed.current [], []⟩

/-- Read a program from a list of tokens, with or without an end token. -/
def ofTokens (tokens : List Token) (limit : Numeral.DigitLimit := Numeral.usualLimit) : Parse :=
  ofFeed (Feed.ofTokens tokens) limit

/-- Read a program from source text. -/
def ofSource (source : String) (limit : Numeral.DigitLimit := Numeral.usualLimit) : Parse :=
  ofFeed (Feed.ofSource source) limit

/-- The diagnostic texts of the errors. -/
def messages (parse : Parse) : List String :=
  parse.errors.map ParseError.message

end Parse

end MonkeyLanguage
