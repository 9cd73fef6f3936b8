-- SUMMARY: The grammar of programs, as derivations of trees from token sequences.
import Mathlib.Tactic.Common
import MonkeyLanguage.Node

/-!
# Grammar

`Derives` says which token sequences stand for which trees. Its rules are those of an
ordinary grammar, which says nothing of priorities: a sequence of operands and operators
has a derivation for every way of putting it into brackets. What texts are numerals, and
of which numbers, is a parameter.

One thing is not free. A statement without a semicolon ends where the next one begins, so
the next one must not start with a token that goes on with an expression.
-/

namespace MonkeyLanguage

/-- The operators that stand in front of an operand. -/
def Kind.prefixOperators : List Kind := [.bang, .minus]

/-- The operators that stand between two operands. -/
def Kind.infixOperators : List Kind :=
  [.plus, .minus, .asterisk, .slash, .less, .greater, .equal, .notEqual]

/-- The kinds that can start a statement and can also go on with an expression. -/
def Kind.ambiguous : List Kind := [.minus, .leftParen, .leftBracket]

/-- What a stretch of tokens stands for. -/
inductive Phrase where
  | expression (node : Node)
  | parameter (node : Node)
  | pair (key value : Node)
  /-- Phrases with commas between them, or none. -/
  | list (items : List Phrase)
  | statement (node : Node)
  /-- Statements, with any number of semicolons behind each. -/
  | statements (nodes : List Node)
  | block (node : Node)

/-- The tokens derive the phrase. -/
inductive Derives (numeral : String → Int → Prop) : List Token → Phrase → Prop where
  | identifier {token : Token} :
      token.kind = .identifier →
      Derives numeral [token] (.expression (.identifier token token.literal))
  | integer {token : Token} {value : Int} :
      token.kind = .integer → numeral token.literal value →
      Derives numeral [token] (.expression (.integer token value))
  | string {token : Token} :
      token.kind = .string → Derives numeral [token] (.expression (.string token token.literal))
  | trueWord {token : Token} :
      token.kind = .trueWord → Derives numeral [token] (.expression (.boolean token true))
  | falseWord {token : Token} :
      token.kind = .falseWord → Derives numeral [token] (.expression (.boolean token false))
  | prefixed {operator : Token} {ts : List Token} {right : Node} :
      operator.kind ∈ Kind.prefixOperators → Derives numeral ts (.expression right) →
      Derives numeral (operator :: ts) (.expression (.prefixed operator operator.literal right))
  | grouped {opening closing : Token} {ts : List Token} {node : Node} :
      opening.kind = .leftParen → Derives numeral ts (.expression node) →
      closing.kind = .rightParen →
      Derives numeral (opening :: ts ++ [closing]) (.expression node)
  | conditional {word opening closing : Token} {cs bs : List Token} {condition block : Node} :
      word.kind = .ifWord → opening.kind = .leftParen → Derives numeral cs (.expression condition) →
      closing.kind = .rightParen → Derives numeral bs (.block block) →
      Derives numeral (word :: opening :: cs ++ closing :: bs)
        (.expression (.conditional word condition block .missing))
  | choice {word opening closing other : Token} {cs bs es : List Token}
      {condition block alternative : Node} :
      word.kind = .ifWord → opening.kind = .leftParen → Derives numeral cs (.expression condition) →
      closing.kind = .rightParen → Derives numeral bs (.block block) → other.kind = .elseWord →
      Derives numeral es (.block alternative) →
      Derives numeral (word :: opening :: cs ++ closing :: bs ++ other :: es)
        (.expression (.conditional word condition block alternative))
  | function {word opening closing : Token} {ps bs : List Token} {parameters : List Node}
      {body : Node} :
      word.kind = .functionWord → opening.kind = .leftParen →
      Derives numeral ps (.list (parameters.map .parameter)) → closing.kind = .rightParen →
      Derives numeral bs (.block body) →
      Derives numeral (word :: opening :: ps ++ closing :: bs)
        (.expression (.function word parameters body))
  | array {opening closing : Token} {ts : List Token} {elements : List Node} :
      opening.kind = .leftBracket → Derives numeral ts (.list (elements.map .expression)) →
      closing.kind = .rightBracket →
      Derives numeral (opening :: ts ++ [closing]) (.expression (.array opening elements))
  | hash {opening closing : Token} {ts : List Token} {pairs : List (Node × Node)} :
      opening.kind = .leftBrace →
      Derives numeral ts (.list (pairs.map fun pair => .pair pair.1 pair.2)) →
      closing.kind = .rightBrace →
      Derives numeral (opening :: ts ++ [closing]) (.expression (.hash opening pairs))
  | binary {operator : Token} {ls rs : List Token} {left right : Node} :
      Derives numeral ls (.expression left) → operator.kind ∈ Kind.infixOperators →
      Derives numeral rs (.expression right) →
      Derives numeral (ls ++ operator :: rs)
        (.expression (.binary operator operator.literal left right))
  | call {opening closing : Token} {fs ts : List Token} {callee : Node} {arguments : List Node} :
      Derives numeral fs (.expression callee) → opening.kind = .leftParen →
      Derives numeral ts (.list (arguments.map .expression)) → closing.kind = .rightParen →
      Derives numeral (fs ++ (opening :: ts ++ [closing]))
        (.expression (.call opening callee arguments))
  | index {opening closing : Token} {ts ks : List Token} {target key : Node} :
      Derives numeral ts (.expression target) → opening.kind = .leftBracket →
      Derives numeral ks (.expression key) → closing.kind = .rightBracket →
      Derives numeral (ts ++ (opening :: ks ++ [closing])) (.expression (.index opening target key))
  | property {period name : Token} {ts : List Token} {target : Node} :
      Derives numeral ts (.expression target) → period.kind = .period → name.kind = .identifier →
      Derives numeral (ts ++ [period, name])
        (.expression (.index period target (.string name name.literal)))
  | parameter {token : Token} :
      token.kind = .identifier →
      Derives numeral [token] (.parameter (.identifier token token.literal))
  | pair {colon : Token} {ks vs : List Token} {key value : Node} :
      Derives numeral ks (.expression key) → colon.kind = .colon →
      Derives numeral vs (.expression value) →
      Derives numeral (ks ++ colon :: vs) (.pair key value)
  | noItems : Derives numeral [] (.list [])
  | lastItem {ts : List Token} {item : Phrase} :
      Derives numeral ts item → Derives numeral ts (.list [item])
  | moreItems {comma : Token} {ts rest : List Token} {item next : Phrase} {items : List Phrase} :
      Derives numeral ts item → comma.kind = .comma →
      Derives numeral rest (.list (next :: items)) →
      Derives numeral (ts ++ comma :: rest) (.list (item :: next :: items))
  | letStatement {word name sign : Token} {ts : List Token} {value : Node} :
      word.kind = .letWord → name.kind = .identifier → sign.kind = .assign →
      Derives numeral ts (.expression value) →
      Derives numeral (word :: name :: sign :: ts)
        (.statement (.letStatement word (.identifier name name.literal) value))
  | returnStatement {word : Token} {ts : List Token} {value : Node} :
      word.kind = .returnWord → Derives numeral ts (.expression value) →
      Derives numeral (word :: ts) (.statement (.returnStatement word value))
  | expressionStatement {first : Token} {ts : List Token} {value : Node} :
      Derives numeral (first :: ts) (.expression value) →
      Derives numeral (first :: ts) (.statement (.expressionStatement first value))
  | noStatements : Derives numeral [] (.statements [])
  | moreStatements {ts semicolons rest : List Token} {node : Node} {nodes : List Node} :
      Derives numeral ts (.statement node) → (∀ token ∈ semicolons, token.kind = .semicolon) →
      Derives numeral rest (.statements nodes) →
      (semicolons = [] → ∀ next ∈ rest.head?, next.kind ∉ Kind.ambiguous) →
      Derives numeral (ts ++ semicolons ++ rest) (.statements (node :: nodes))
  | block {opening closing : Token} {ts : List Token} {nodes : List Node} :
      opening.kind = .leftBrace → Derives numeral ts (.statements nodes) →
      closing.kind = .rightBrace →
      Derives numeral (opening :: ts ++ [closing]) (.block (.block opening nodes))

end MonkeyLanguage
