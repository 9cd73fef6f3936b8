-- SUMMARY: Token kinds, positions and tokens.
import MonkeyLanguage.Text.Quoted

/-!
# Tokens

A token has a kind, the text it stands for, and the place where it starts.
Operators and delimiters are named by their own spelling, all other kinds by a
word in capitals. Tokens supplied from outside may carry names that the
language does not know; they keep them as `Kind.other`.
-/

namespace MonkeyLanguage

/-- What sort of token it is. -/
inductive Kind where
  | illegal
  | endOfInput
  | identifier
  | integer
  | string
  | assign
  | plus
  | minus
  | bang
  | asterisk
  | slash
  | less
  | greater
  | equal
  | notEqual
  | period
  | comma
  | colon
  | semicolon
  | leftParen
  | rightParen
  | leftBrace
  | rightBrace
  | leftBracket
  | rightBracket
  | functionWord
  | letWord
  | trueWord
  | falseWord
  | ifWord
  | elseWord
  | returnWord
  /-- A kind that the language does not know. -/
  | other (name : String)
  deriving DecidableEq, Inhabited

namespace Kind

/-- The name of a kind, as diagnostics show it. -/
def name : Kind → String
  | illegal => "ILLEGAL"
  | endOfInput => "EOF"
  | identifier => "IDENT"
  | integer => "INT"
  | string => "STRING"
  | assign => "="
  | plus => "+"
  | minus => "-"
  | bang => "!"
  | asterisk => "*"
  | slash => "/"
  | less => "<"
  | greater => ">"
  | equal => "=="
  | notEqual => "!="
  | period => "."
  | comma => ","
  | colon => ":"
  | semicolon => ";"
  | leftParen => "("
  | rightParen => ")"
  | leftBrace => "\x7b"
  | rightBrace => "\x7d"
  | leftBracket => "["
  | rightBracket => "]"
  | functionWord => "FUNCTION"
  | letWord => "LET"
  | trueWord => "TRUE"
  | falseWord => "FALSE"
  | ifWord => "IF"
  | elseWord => "ELSE"
  | returnWord => "RETURN"
  | other name => name

/-- The kinds of the language, each once. -/
def known : List Kind :=
  [illegal, endOfInput, identifier, integer, string, assign, plus, minus, bang, asterisk, slash,
   less, greater, equal, notEqual, period, comma, colon, semicolon, leftParen, rightParen,
   leftBrace, rightBrace, leftBracket, rightBracket, functionWord, letWord, trueWord, falseWord,
   ifWord, elseWord, returnWord]

/-- The kind with the given name. -/
def ofName (name : String) : Kind :=
  (known.find? fun kind => kind.name == name).getD (other name)

/-- The kind of a word: a keyword, or else an identifier. -/
def ofWord (word : String) : Kind :=
  match word with
  | "fn" => functionWord
  | "let" => letWord
  | "true" => trueWord
  | "false" => falseWord
  | "if" => ifWord
  | "else" => elseWord
  | "return" => returnWord
  | _ => identifier

theorem name_ofName (name : String) : (ofName name).name = name := by
  unfold ofName
  cases h : known.find? fun kind => kind.name == name with
  | none => rfl
  | some kind => simpa using List.find?_some h

end Kind

/-- A place in a source text: lines and columns count from one. Tokens from outside stand
at zero. -/
structure Position where
  line : Nat
  column : Nat
  deriving DecidableEq, Inhabited

namespace Position

/-- The place of tokens that come from no source text. -/
def nowhere : Position := ⟨0, 0⟩

/-- The place of the first character of a text. -/
def start : Position := ⟨1, 1⟩

/-- The place after a character: a line feed starts the next line. -/
def advance (here : Position) (c : Char) : Position :=
  if c = '\n' then ⟨here.line + 1, 1⟩ else ⟨here.line, here.column + 1⟩

end Position

/-- A token: its kind, the text it stands for, and where it starts. -/
structure Token where
  kind : Kind
  literal : String
  position : Position := .nowhere
  deriving DecidableEq, Inhabited

namespace Token

/-- The token that stands for the end of the input. -/
def endAt (position : Position) : Token :=
  ⟨.endOfInput, "", position⟩

/-- How diagnostics show a token. -/
def display (token : Token) : String :=
  "Token(" ++ Text.quoted token.kind.name ++ ", " ++ Text.quoted token.literal ++ ")"

end Token

end MonkeyLanguage
