-- SUMMARY: Trees that a source text can stand for, and trees without their tokens.
import MonkeyLanguage.Proofs.Reading.Made
import MonkeyLanguage.Proofs.Scanning.Numeral

/-!
# Well-formed trees

Trees from outside may have anything anywhere. A well-formed one has what the language asks for
at each place: all children, and names, numbers, texts and operators that can be written down.
The trees that are read from a source text are well formed, even if there were errors.
-/

namespace MonkeyLanguage

/-- A word that is no keyword. -/
def IsName (name : String) : Prop :=
  IsWord name.toList ∧ Kind.ofWord name = .identifier

/-- The phrase is well formed; numerals may have as many digits as the limit says. -/
inductive WellFormed (limit : Numeral.DigitLimit) : Phrase → Prop where
  | identifier {token : Token} {name : String} :
      IsName name → WellFormed limit (.expression (.identifier token name))
  | integer {token : Token} {value : Int} :
      Numeral.Written limit token.literal value → WellFormed limit (.expression (.integer token value))
  | string {token : Token} {text : String} :
      '"' ∉ text.toList → WellFormed limit (.expression (.string token text))
  | boolean {token : Token} {value : Bool} :
      token.literal = (if value then "true" else "false") →
      WellFormed limit (.expression (.boolean token value))
  | prefixed {token : Token} {operator : String} {right : Node} :
      operator ∈ ["!", "-"] → WellFormed limit (.expression right) →
      WellFormed limit (.expression (.prefixed token operator right))
  | binary {token : Token} {operator : String} {left right : Node} :
      operator ∈ ["+", "-", "*", "/", "<", ">", "==", "!="] →
      WellFormed limit (.expression left) → WellFormed limit (.expression right) →
      WellFormed limit (.expression (.binary token operator left right))
  | conditional {token : Token} {condition consequence : Node} :
      WellFormed limit (.expression condition) → WellFormed limit (.block consequence) →
      WellFormed limit (.expression (.conditional token condition consequence .missing))
  | choice {token : Token} {condition consequence alternative : Node} :
      WellFormed limit (.expression condition) → WellFormed limit (.block consequence) →
      WellFormed limit (.block alternative) →
      WellFormed limit (.expression (.conditional token condition consequence alternative))
  | function {token : Token} {parameters : List Node} {body : Node} :
      token.literal = "fn" → (∀ parameter ∈ parameters, WellFormed limit (.parameter parameter)) →
      WellFormed limit (.block body) →
      WellFormed limit (.expression (.function token parameters body))
  | call {token : Token} {callee : Node} {arguments : List Node} :
      WellFormed limit (.expression callee) →
      (∀ argument ∈ arguments, WellFormed limit (.expression argument)) →
      WellFormed limit (.expression (.call token callee arguments))
  | array {token : Token} {elements : List Node} :
      (∀ element ∈ elements, WellFormed limit (.expression element)) →
      WellFormed limit (.expression (.array token elements))
  | hash {token : Token} {pairs : List (Node × Node)} :
      (∀ pair ∈ pairs, WellFormed limit (.pair pair.1 pair.2)) →
      WellFormed limit (.expression (.hash token pairs))
  | index {token : Token} {target key : Node} :
      WellFormed limit (.expression target) → WellFormed limit (.expression key) →
      WellFormed limit (.expression (.index token target key))
  | parameter {token : Token} {name : String} :
      IsName name → WellFormed limit (.parameter (.identifier token name))
  | pair {key value : Node} :
      WellFormed limit (.expression key) → WellFormed limit (.expression value) →
      WellFormed limit (.pair key value)
  | letStatement {token other : Token} {name : String} {value : Node} :
      token.literal = "let" → IsName name → WellFormed limit (.expression value) →
      WellFormed limit (.statement (.letStatement token (.identifier other name) value))
  | returnStatement {token : Token} {value : Node} :
      token.literal = "return" → WellFormed limit (.expression value) →
      WellFormed limit (.statement (.returnStatement token value))
  | expressionStatement {token : Token} {value : Node} :
      WellFormed limit (.expression value) →
      WellFormed limit (.statement (.expressionStatement token value))
  | block {token : Token} {statements : List Node} :
      (∀ statement ∈ statements, WellFormed limit (.statement statement)) →
      WellFormed limit (.block (.block token statements))

/-- A program of well-formed statements. -/
def WellFormedProgram (limit : Numeral.DigitLimit) : Node → Prop
  | .program _ statements => ∀ statement ∈ statements, WellFormed limit (.statement statement)
  | _ => False

/-! ## Trees without tokens -/

/-- The token that stands for all others. -/
def Token.erased : Token := ⟨.illegal, "", .nowhere⟩

namespace Node

mutual

/-- The same tree without its tokens, except that numbers keep the text they are written as. -/
def erase : Node → Node
  | program _ statements => .program .erased (eraseAll statements)
  | letStatement _ name value => .letStatement .erased name.erase value.erase
  | returnStatement _ value => .returnStatement .erased value.erase
  | expressionStatement _ value => .expressionStatement .erased value.erase
  | block _ statements => .block .erased (eraseAll statements)
  | identifier _ name => .identifier .erased name
  | integer token value => .integer ⟨.integer, token.literal, .nowhere⟩ value
  | string _ text => .string .erased text
  | boolean _ value => .boolean .erased value
  | prefixed _ operator right => .prefixed .erased operator right.erase
  | binary _ operator left right => .binary .erased operator left.erase right.erase
  | conditional _ condition consequence alternative =>
    .conditional .erased condition.erase consequence.erase alternative.erase
  | function _ parameters body => .function .erased (eraseAll parameters) body.erase
  | call _ callee arguments => .call .erased callee.erase (eraseAll arguments)
  | array _ elements => .array .erased (eraseAll elements)
  | hash _ pairs => .hash .erased (erasePairs pairs)
  | index _ target key => .index .erased target.erase key.erase
  | missing => .missing
  | foreign => .foreign

/-- Several trees without their tokens. -/
def eraseAll : List Node → List Node
  | [] => []
  | node :: rest => node.erase :: eraseAll rest

/-- Pairs of trees without their tokens. -/
def erasePairs : List (Node × Node) → List (Node × Node)
  | [] => []
  | (key, value) :: rest => (key.erase, value.erase) :: erasePairs rest

end

end Node

/-! ## Trees that are read -/

theorem Token.Lexical.isName {token : Token} (h : token.Lexical)
    (hkind : token.kind = .identifier) : IsName token.literal := by
  rw [Token.Lexical, hkind] at h
  exact h

theorem IsName.quote_not_mem {name : String} (h : IsName name) : '"' ∉ name.toList := by
  obtain ⟨⟨c, rest, heq, hstart, hrest⟩, -⟩ := h
  rw [heq]
  intro hmem
  rcases List.mem_cons.1 hmem with rfl | hmem
  · exact absurd hstart (by decide)
  · exact absurd (hrest _ hmem) (by decide)

theorem Token.Lexical.prefix_mem {token : Token} (h : token.Lexical)
    (hkind : token.kind ∈ Kind.prefixOperators) : token.literal ∈ ["!", "-"] := by
  rw [Token.Lexical] at h
  simp only [Kind.prefixOperators, List.mem_cons, List.not_mem_nil, or_false] at hkind
  rcases hkind with hkind | hkind <;> rw [hkind] at h <;>
    simp only [Kind.Admits, Kind.name] at h <;> simp [h]

theorem Token.Lexical.infix_mem {token : Token} (h : token.Lexical)
    (hkind : token.kind ∈ Kind.infixOperators) :
    token.literal ∈ ["+", "-", "*", "/", "<", ">", "==", "!="] := by
  rw [Token.Lexical] at h
  simp only [Kind.infixOperators, List.mem_cons, List.not_mem_nil, or_false] at hkind
  rcases hkind with hkind | hkind | hkind | hkind | hkind | hkind | hkind | hkind <;>
    rw [hkind] at h <;> simp only [Kind.Admits, Kind.name] at h <;> simp [h]

/-- The trees that the parser makes from tokens of the scanner are well formed. -/
theorem Made.wellFormed {limit : Numeral.DigitLimit} {phrase : Phrase}
    (h : Made limit Token.Lexical phrase) : WellFormed limit phrase := by
  induction h with
  | identifier htoken hkind => exact .identifier (htoken.isName hkind)
  | integer htoken hkind hread =>
      rw [Token.Lexical, hkind] at htoken
      exact .integer ((Numeral.reads_iff_written htoken).1 hread)
  | string htoken hkind =>
      rw [Token.Lexical, hkind] at htoken
      exact .string htoken
  | trueWord htoken hkind =>
      rw [Token.Lexical, hkind] at htoken
      exact .boolean (Kind.ofWord_inj htoken.2 (by decide))
  | falseWord htoken hkind =>
      rw [Token.Lexical, hkind] at htoken
      exact .boolean (Kind.ofWord_inj htoken.2 (by decide))
  | prefixed htoken hoperator _ ih => exact .prefixed (htoken.prefix_mem hoperator) ih
  | conditional _ _ _ ihCondition ihBlock => exact .conditional ihCondition ihBlock
  | choice _ _ _ _ ihCondition ihBlock ihOther => exact .choice ihCondition ihBlock ihOther
  | function htoken hkind _ _ ihParameters ihBody =>
      rw [Token.Lexical, hkind] at htoken
      exact .function (Kind.ofWord_inj htoken.2 (by decide)) ihParameters ihBody
  | array _ _ ih => exact .array ih
  | hash _ _ ih => exact .hash ih
  | binary _ htoken hoperator _ ihLeft ihRight =>
      exact .binary (htoken.infix_mem hoperator) ihLeft ihRight
  | call _ _ _ ihCallee ihArguments => exact .call ihCallee ihArguments
  | index _ _ _ ihTarget ihKey => exact .index ihTarget ihKey
  | property _ _ htoken hkind ihTarget =>
      exact .index ihTarget (.string (htoken.isName hkind).quote_not_mem)
  | parameter htoken hkind => exact .parameter (htoken.isName hkind)
  | pair _ _ ihKey ihValue => exact .pair ihKey ihValue
  | letStatement hword hwordKind hname hnameKind _ ih =>
      rw [Token.Lexical, hwordKind] at hword
      exact .letStatement (Kind.ofWord_inj hword.2 (by decide)) (hname.isName hnameKind) ih
  | returnStatement hword hwordKind _ ih =>
      rw [Token.Lexical, hwordKind] at hword
      exact .returnStatement (Kind.ofWord_inj hword.2 (by decide)) ih
  | expressionStatement _ _ ih => exact .expressionStatement ih
  | block _ _ ih => exact .block ih

end MonkeyLanguage
