-- SUMMARY: Scanning a source text into tokens.
import MonkeyLanguage.Text.Blank
import MonkeyLanguage.Token

/-!
# Scanning

A source text is cut into lexemes with blanks between them. A lexeme is the
longest stretch of its class that starts where the last one ended: a word, a run
of digits, a string, an operator, or a single character that fits nothing else.
No text is refused: a string that is not closed runs to the end of the text, and
a character that starts no lexeme becomes an illegal token of its own.

`Token.scan` walks the text once. While it is inside a lexeme it only counts
down how many characters of it are left, so it recurses on the text itself.
-/

namespace MonkeyLanguage

/-- A character that a word may start with. -/
def isWordStart (c : Char) : Bool :=
  c.isAlpha || c == '_'

/-- A character that a word may go on with. -/
def isWordPart (c : Char) : Bool :=
  c.isAlphanum || c == '_'

/-- The kind of the operators and delimiters that are a single character. -/
def Kind.ofSymbol? : Char → Option Kind
  | '=' => some .assign
  | '+' => some .plus
  | '-' => some .minus
  | '!' => some .bang
  | '*' => some .asterisk
  | '/' => some .slash
  | '<' => some .less
  | '>' => some .greater
  | '.' => some .period
  | ',' => some .comma
  | ':' => some .colon
  | ';' => some .semicolon
  | '(' => some .leftParen
  | ')' => some .rightParen
  | '{' => some .leftBrace
  | '}' => some .rightBrace
  | '[' => some .leftBracket
  | ']' => some .rightBracket
  | _ => none

/-- A stretch of source text that makes one token. -/
structure Lexeme where
  kind : Kind
  /-- The text that the token stands for. -/
  literal : List Char
  /-- The stretch itself; it differs from the literal in strings only, by their quotes. -/
  spelling : List Char
  deriving DecidableEq

namespace Lexeme

/-- A lexeme that stands for its own spelling. -/
def plain (kind : Kind) (spelling : List Char) : Lexeme :=
  ⟨kind, spelling, spelling⟩

/-- A string: what follows the opening quote, up to the next quote or the end of the text. -/
def string (rest : List Char) : Lexeme :=
  let body := rest.takeWhile (· != '"')
  ⟨.string, body, '"' :: body ++ (rest.drop body.length).take 1⟩

/-- The lexeme at the start of a text whose first character `c` is not blank. -/
def first (c : Char) (rest : List Char) : Lexeme :=
  if isWordStart c then
    let word := c :: rest.takeWhile isWordPart
    plain (.ofWord (String.ofList word)) word
  else if c.isDigit then
    plain .integer (c :: rest.takeWhile Char.isDigit)
  else if c = '"' then
    string rest
  else if c = '=' ∧ rest.head? = some '=' then
    plain .equal ['=', '=']
  else if c = '!' ∧ rest.head? = some '=' then
    plain .notEqual ['!', '=']
  else
    plain ((Kind.ofSymbol? c).getD .illegal) [c]

/-- The token that a lexeme makes at a place. -/
def toToken (lexeme : Lexeme) (position : Position) : Token :=
  ⟨lexeme.kind, String.ofList lexeme.literal, position⟩

end Lexeme

namespace Token

/-- Scan the rest of a text. The first `skip` characters belong to a lexeme whose token is
already made; `here` is the place of the first character and `finish` the place where the
last lexeme ends, as far as it has been walked. -/
def scanFrom (skip : Nat) (here finish : Position) : List Char → List Token
  | [] => [endAt finish]
  | c :: rest =>
    let next := here.advance c
    match skip with
    | skip + 1 => scanFrom skip next next rest
    | 0 =>
      if Text.isBlank c then scanFrom 0 next finish rest
      else
        let lexeme := Lexeme.first c rest
        lexeme.toToken here :: scanFrom (lexeme.spelling.length - 1) next next rest

/-- The tokens of a source text, closed by the one that stands for its end. That one stands
right after the last lexeme, so blanks at the end of the text do not move it. -/
def scan (source : String) : List Token :=
  scanFrom 0 .start .start source.toList

end Token

end MonkeyLanguage
