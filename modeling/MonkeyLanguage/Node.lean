-- SUMMARY: The nodes of program trees.
import MonkeyLanguage.Token

/-!
# Program trees

There is one type of nodes for programs, statements and expressions, because the
tools that take trees from outside put no limit on what stands where: any node
may be the child of any other, and operators may be any text. What a reader of
source text builds is far narrower.

Every node keeps the token it was made from. For a node that joins two others,
such as a call, that is the token between them.
-/

namespace MonkeyLanguage

/-- A node of a program tree. -/
inductive Node where
  | program (token : Token) (statements : List Node)
  | letStatement (token : Token) (name value : Node)
  | returnStatement (token : Token) (value : Node)
  | expressionStatement (token : Token) (value : Node)
  | block (token : Token) (statements : List Node)
  | identifier (token : Token) (name : String)
  | integer (token : Token) (value : Int)
  | string (token : Token) (text : String)
  | boolean (token : Token) (value : Bool)
  | prefixed (token : Token) (operator : String) (right : Node)
  | binary (token : Token) (operator : String) (left right : Node)
  | conditional (token : Token) (condition consequence alternative : Node)
  | function (token : Token) (parameters : List Node) (body : Node)
  | call (token : Token) (callee : Node) (arguments : List Node)
  | array (token : Token) (elements : List Node)
  | hash (token : Token) (pairs : List (Node × Node))
  | index (token : Token) (target key : Node)
  /-- A child that is not there. -/
  | missing
  /-- Something from outside that is no node of the language. -/
  | foreign
  deriving Inhabited

namespace Node

/-- Whether a node is a statement made of an expression. -/
def isExpressionStatement : Node → Bool
  | expressionStatement .. => true
  | _ => false

/-- The statements of a program or block; other nodes have none. -/
def statements : Node → List Node
  | program _ statements => statements
  | block _ statements => statements
  | _ => []

/-- The text of the token that a node was made from; for a program, of its first statement's. -/
def tokenLiteral : Node → String
  | program _ [] => ""
  | program _ (first :: _) => first.tokenLiteral
  | letStatement token .. => token.literal
  | returnStatement token .. => token.literal
  | expressionStatement token .. => token.literal
  | block token .. => token.literal
  | identifier token .. => token.literal
  | integer token .. => token.literal
  | string token .. => token.literal
  | boolean token .. => token.literal
  | prefixed token .. => token.literal
  | binary token .. => token.literal
  | conditional token .. => token.literal
  | function token .. => token.literal
  | call token .. => token.literal
  | array token .. => token.literal
  | hash token .. => token.literal
  | index token .. => token.literal
  | missing => ""
  | foreign => ""

end Node

end MonkeyLanguage
