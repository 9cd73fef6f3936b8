-- SUMMARY: The rules of the language: statements, expressions, blocks and programs.
import MonkeyLanguage.Node
import MonkeyLanguage.Numeral
import MonkeyLanguage.Parser.Basic

/-!
# Rules

Expressions are read by binding power: an operand is extended by operators,
calls and look-ups for as long as what follows binds tighter than what went
before. That gives the usual priorities, and operators of one power group to the
left.

Each rule below reads expressions by a parser that it is given, so none of them
is recursive. `Parser.expression` ties the knot; it is bounded by how deep
expressions may nest, and no text nests deeper than it has tokens.

Where a rule starts, the token at the front is the first one of what it reads;
where it ends, the token at the front is the last one.
-/

namespace MonkeyLanguage

/-! ## Binding powers -/

/-- The binding power of no operator at all: everything extends an operand read at this power. -/
def BindingPower.lowest : Nat := 1

/-- The binding power of the operators in front of an operand. -/
def BindingPower.prefixed : Nat := 6

/-- How tightly a token of this kind binds to the operand before it. -/
def Kind.bindingPower : Kind → Nat
  | .equal | .notEqual => 2
  | .less | .greater => 3
  | .plus | .minus => 4
  | .slash | .asterisk => 5
  | .leftParen => 7
  | .leftBracket | .period => 8
  | _ => BindingPower.lowest

namespace Parser

/-- A parser of expressions for each binding power. -/
abbrev ExpressionParser := Nat → Parser Node

/-! ## Statements -/

/-- A name is bound to a value. -/
def letStatement (expression : ExpressionParser) : Parser Node := do
  let token ← current
  expect .identifier
  let name ← current
  expect .assign
  advance
  let value ← expression BindingPower.lowest
  move Feed.skipSemicolons
  pure (.letStatement token (.identifier name name.literal) value)

/-- A value is returned. -/
def returnStatement (expression : ExpressionParser) : Parser Node := do
  let token ← current
  advance
  let value ← expression BindingPower.lowest
  move Feed.skipSemicolons
  pure (.returnStatement token value)

/-- An expression stands as a statement. -/
def expressionStatement (expression : ExpressionParser) : Parser Node := do
  let token ← current
  let value ← expression BindingPower.lowest
  move Feed.skipSemicolons
  pure (.expressionStatement token value)

/-- A statement, with the semicolons behind it. -/
def statement (expression : ExpressionParser) : Parser Node := do
  match (← current).kind with
  | .letWord => letStatement expression
  | .returnWord => returnStatement expression
  | _ => expressionStatement expression

/-- One statement of a block, or nothing where the block ends. A broken statement is skipped up
to a semicolon or to the end of the block. -/
def blockStep (expression : ExpressionParser) : Parser (Option (List Node)) := do
  match (← current).kind with
  | .rightBrace => pure none
  | .endOfInput =>
    report (.expected .rightBrace .endOfInput)
    pure none
  | _ =>
    match ← attempt (statement expression) with
    | some node =>
      advance
      pure (some [node])
    | none =>
      move (Feed.skipTo [.semicolon, .rightBrace])
      if (← current).kind = .rightBrace then
        pure none
      else
        advance
        pure (some [])

/-- Statements between braces. The block never fails; one that is not closed is reported. -/
def block (expression : ExpressionParser) : Parser Node := do
  let token ← current
  advance
  let statements ← gather (blockStep expression)
  pure (.block token statements)

/-- One statement of a program, or nothing where the program ends. A broken statement is skipped
up to a semicolon. -/
def programStep (expression : ExpressionParser) : Parser (Option (List Node)) := do
  if (← current).kind = .endOfInput then
    pure none
  else
    match ← attempt (statement expression) with
    | some node =>
      advance
      pure (some [node])
    | none =>
      move (Feed.skipTo [.semicolon])
      advance
      pure (some [])

/-- All statements of a program. -/
def programStatements (expression : ExpressionParser) : Parser (List Node) :=
  gather (programStep expression)

/-! ## Operands -/

/-- The largest number that may be written, `2 ^ 63 - 1`. -/
def largestInteger : Int := 0x7fffffffffffffff

/-- A number. -/
def integer (limit : Numeral.DigitLimit) : Parser Node := do
  let token ← current
  match Numeral.read? token.literal limit with
  | some value =>
    if value ≤ largestInteger then pure (.integer token value)
    else fail (.notAnInteger token.literal)
  | none => fail (.notAnInteger token.literal)

/-- An operator and the operand behind it. -/
def prefixed (expression : ExpressionParser) : Parser Node := do
  let token ← current
  advance
  let right ← expression BindingPower.prefixed
  pure (.prefixed token token.literal right)

/-- An expression in brackets, which leave no trace in the tree. -/
def grouped (expression : ExpressionParser) : Parser Node := do
  advance
  let inner ← expression BindingPower.lowest
  expect .rightParen
  pure inner

/-- The branch behind `else`, or a missing node if that word does not follow. -/
def alternative (expression : ExpressionParser) : Parser Node := do
  if (← peek).kind = .elseWord then
    advance
    expect .leftBrace
    block expression
  else
    pure .missing

/-- A choice between one block and another. -/
def conditional (expression : ExpressionParser) : Parser Node := do
  let token ← current
  expect .leftParen
  advance
  let condition ← expression BindingPower.lowest
  expect .rightParen
  expect .leftBrace
  let consequence ← block expression
  let otherwise ← alternative expression
  pure (.conditional token condition consequence otherwise)

/-- The name of a parameter. -/
def parameter : Parser Node := do
  let token ← current
  if token.kind = .identifier then pure (.identifier token token.literal)
  else fail (.expected .identifier token.kind)

/-- A function with its parameters and body. -/
def function (expression : ExpressionParser) : Parser Node := do
  let token ← current
  expect .leftParen
  let parameters ← listUpTo .rightParen parameter
  expect .leftBrace
  let body ← block expression
  pure (.function token parameters body)

/-- A list of values in square brackets. -/
def array (expression : ExpressionParser) : Parser Node := do
  let token ← current
  let elements ← listUpTo .rightBracket (expression BindingPower.lowest)
  pure (.array token elements)

/-- A key and the value behind its colon. -/
def pair (expression : ExpressionParser) : Parser (Node × Node) := do
  let key ← expression BindingPower.lowest
  expect .colon
  advance
  let value ← expression BindingPower.lowest
  pure (key, value)

/-- Keys and values in braces. -/
def hash (expression : ExpressionParser) : Parser Node := do
  let token ← current
  let pairs ← listUpTo .rightBrace (pair expression)
  pure (.hash token pairs)

/-- What an expression starts with. -/
def operand (limit : Numeral.DigitLimit) (expression : ExpressionParser) : Parser Node := do
  let token ← current
  match token.kind with
  | .identifier => pure (.identifier token token.literal)
  | .integer => integer limit
  | .string => pure (.string token token.literal)
  | .trueWord => pure (.boolean token true)
  | .falseWord => pure (.boolean token false)
  | .bang | .minus => prefixed expression
  | .leftParen => grouped expression
  | .ifWord => conditional expression
  | .functionWord => function expression
  | .leftBracket => array expression
  | .leftBrace => hash expression
  | kind => fail (.noOperand kind)

/-! ## Extensions -/

/-- The arguments of a call. -/
def call (expression : ExpressionParser) (callee : Node) : Parser Node := do
  let token ← current
  let arguments ← listUpTo .rightParen (expression BindingPower.lowest)
  pure (.call token callee arguments)

/-- A look-up by an expression in square brackets. -/
def index (expression : ExpressionParser) (target : Node) : Parser Node := do
  let token ← current
  advance
  let key ← expression BindingPower.lowest
  expect .rightBracket
  pure (.index token target key)

/-- A look-up by a name behind a period: `a.b` means `a["b"]`. -/
def property (target : Node) : Parser Node := do
  let token ← current
  expect .identifier
  let name ← current
  pure (.index token target (.string name name.literal))

/-- An operator and the operand behind it, joined to the operand before it. -/
def binary (expression : ExpressionParser) (left : Node) : Parser Node := do
  let token ← current
  advance
  let right ← expression token.kind.bindingPower
  pure (.binary token token.literal left right)

/-- What extends the operand before it. -/
def extension (expression : ExpressionParser) (left : Node) : Parser Node := do
  match (← current).kind with
  | .leftParen => call expression left
  | .leftBracket => index expression left
  | .period => property left
  | _ => binary expression left

/-- Extend an operand, at most `bound` times, while what follows binds tighter than `power`. -/
def extendUpTo (expression : ExpressionParser) (power : Nat) : Nat → Node → Parser Node
  | 0, _ => exhausted
  | bound + 1, left => do
    if power < (← peek).kind.bindingPower then
      advance
      let longer ← extension expression left
      extendUpTo expression power bound longer
    else
      pure left

/-- Extend an operand while what follows binds tighter than `power`. -/
def extend (expression : ExpressionParser) (power : Nat) (left : Node) : Parser Node :=
  fun feed => extendUpTo expression power (feed.ahead.length + 1) left feed

/-! ## The knot -/

/-- An expression that nests at most `depth` deep, extended by what binds tighter than `power`. -/
def expression (limit : Numeral.DigitLimit) : Nat → ExpressionParser
  | 0, _ => exhausted
  | depth + 1, power => do
    let left ← operand limit (expression limit depth)
    extend (expression limit depth) power left

end Parser

end MonkeyLanguage
