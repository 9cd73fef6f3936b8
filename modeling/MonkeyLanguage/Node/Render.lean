-- SUMMARY: The canonical text of program trees.
import MonkeyLanguage.Node
import MonkeyLanguage.Text.Separated

/-!
# Canonical text

`Node.render` writes a tree with every operation in brackets of its own, so that
`1 + 2 * 3` comes out as `(1 + (2 * 3))`. Two adjacent statements need a mark
between them only if the first one is an expression; `let` and `return` bring
their own semicolon.

A value that is not there leaves nothing behind where a statement or an operator
may lack it, and the word for "none" anywhere else.
-/

namespace MonkeyLanguage.Node

/-- The text of a child that may be absent, given its text when it is not. -/
def orNothing (child : Node) (text : String) : String :=
  match child with
  | missing => ""
  | _ => text

mutual

/-- The canonical text of a tree. -/
def render : Node → String
  | program _ statements => String.join (renderStatements statements)
  | letStatement token name value =>
    token.literal ++ " " ++ name.render ++ " = " ++ value.orNothing value.render ++ ";"
  | returnStatement token value => token.literal ++ " " ++ value.orNothing value.render ++ ";"
  | expressionStatement _ value => value.orNothing value.render
  | block _ [] => "\x7b \x7d"
  | block _ (first :: rest) =>
    "\x7b " ++ String.intercalate " " (renderStatements (first :: rest)) ++ " \x7d"
  | identifier _ name => name
  | integer token _ => token.literal
  | string _ text => "\"" ++ text ++ "\""
  | boolean token _ => token.literal
  | prefixed _ operator right => "(" ++ operator ++ right.orNothing right.render ++ ")"
  | binary _ operator left right =>
    "(" ++ left.render ++ " " ++ operator ++ " " ++ right.orNothing right.render ++ ")"
  | conditional _ condition consequence alternative =>
    "if (" ++ condition.render ++ ") " ++ consequence.render ++
      alternative.orNothing (" else " ++ alternative.render)
  | function token parameters body =>
    token.literal ++ "(" ++ Text.commaSeparated (renderAll parameters) ++ ") " ++ body.render
  | call _ callee arguments =>
    callee.render ++ "(" ++ Text.commaSeparated (renderAll arguments) ++ ")"
  | array _ elements => "[" ++ Text.commaSeparated (renderAll elements) ++ "]"
  | hash _ pairs => "\x7b" ++ Text.commaSeparated (renderPairs pairs) ++ "\x7d"
  | index _ target key => "(" ++ target.render ++ "[" ++ key.render ++ "])"
  | missing => "None"
  | foreign => ""

/-- The texts of adjacent statements, each with the semicolon it needs before the next. -/
def renderStatements : List Node → List String
  | [] => []
  | statement :: rest =>
    (statement.render ++ if statement.isExpressionStatement && !rest.isEmpty then ";" else "") ::
      renderStatements rest

/-- The texts of several trees. -/
def renderAll : List Node → List String
  | [] => []
  | node :: rest => node.render :: renderAll rest

/-- The texts of key and value pairs. -/
def renderPairs : List (Node × Node) → List String
  | [] => []
  | (key, value) :: rest => (key.render ++ ": " ++ value.render) :: renderPairs rest

end

end MonkeyLanguage.Node
