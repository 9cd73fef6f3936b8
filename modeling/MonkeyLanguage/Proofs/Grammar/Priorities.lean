-- SUMMARY: Chains of operands and operators are parsed to the tree that the binding powers ask for.
import MonkeyLanguage.Proofs.Canonical.Reparse
import MonkeyLanguage.Proofs.Grammar.Grouping

/-!
# Priorities

An operand is a primary expression with calls and look-ups behind it and operators in front of it.
The first are applied before the second, from the inside out. A chain of operands is parsed to the
grouped tree of its operators. What stands in brackets may be anything that the parser accepts by
itself as an expression.
-/

namespace MonkeyLanguage

/-! ## Expressions by themselves -/

/-- By themselves, the tokens are parsed as one expression without errors. They are all read, and
no semicolon is among them that would belong to a statement. -/
structure Parse.IsExpression (limit : Numeral.DigitLimit) (ts : List Token) (node : Node) :
    Prop where
  parsed : ∃ token first, Parse.ofTokens ts limit =
    ⟨.program token [.expressionStatement first node], []⟩
  no_end : ∀ token ∈ ts, token.kind ≠ .endOfInput
  no_semicolon : ∀ last ∈ ts.getLast?, last.kind ≠ .semicolon

/-- A feed that is read as one expression is parsed as a program of one statement. -/
theorem Parse.ofFeed_of_readsExpression {limit : Numeral.DigitLimit} {feed rest : Feed}
    {ts : List Token} {node : Node}
    (h : Parser.ReadsExpression limit BindingPower.lowest ts node)
    (hsplit : feed.ahead = ts ++ rest.ahead) (hfinish : rest.finish = feed.finish)
    (hend : rest.current.kind = .endOfInput) :
    Parse.ofFeed feed limit =
      ⟨.program feed.current [.expressionStatement feed.current node], []⟩ := by
  have hnone : ∀ token ∈ ([] : List Token), token.kind = .semicolon := List.forall_mem_nil _
  obtain ⟨first, others, rfl, hstatement⟩ := h.expressionStatement hnone
  have hsequence : Parser.Sequence limit (first :: others) [.expressionStatement first node] := by
    simpa using Parser.Sequence.more hstatement .none (by simp)
  have hcurrent : feed.current = first := Feed.current_eq_of_ahead hsplit
  rw [hcurrent, ← hcurrent]
  exact hcurrent ▸ Parse.program_of_yields
    (hsequence.yields_programStatements hsplit hfinish hend (Nat.lt_succ_self _))

/-- Tokens without an end among them that are parsed without errors are all derived. -/
theorem Parse.derives_of_errors_nil {limit : Numeral.DigitLimit} {ts : List Token}
    (h : (Parse.ofTokens ts limit).errors = []) (hend : ∀ token ∈ ts, token.kind ≠ .endOfInput) :
    ∃ nodes, Parse.ofTokens ts limit = ⟨.program (Feed.ofTokens ts).current nodes, []⟩ ∧
      Derives (Parser.reads limit) ts (.statements nodes) := by
  obtain ⟨nodes, rest, hyields⟩ := Parse.errors_eq_nil_iff.1 h
  obtain ⟨us, hsplit, hrest, hderives⟩ := Parser.programStatements_sound hyields
  have htokens : ts = us ++ rest.ahead := hsplit
  obtain rfl : us = ts := by
    cases hahead : rest.ahead with
    | nil => rw [htokens, hahead, List.append_nil]
    | cons last others =>
        rw [Feed.current_eq_of_ahead hahead] at hrest
        exact absurd hrest (hend last (by rw [htokens, hahead]; simp))
  exact ⟨nodes, Parse.program_of_yields hyields, hderives⟩

theorem Parse.IsExpression.derives {limit : Numeral.DigitLimit} {ts : List Token} {node : Node}
    (h : Parse.IsExpression limit ts node) :
    Derives (Parser.reads limit) ts (.expression node) := by
  obtain ⟨⟨token, first, hparsed⟩, hend, hsemicolon⟩ := h
  obtain ⟨nodes, hprogram, hderives⟩ :=
    Parse.derives_of_errors_nil (congrArg Parse.errors hparsed) hend
  cases hprogram.symm.trans hparsed
  cases hderives with
  | @moreStatements ts semicolons _ _ _ hstatement hall hothers _ =>
      cases hothers
      rw [List.append_nil] at hsemicolon ⊢
      have hnone : semicolons = [] := by
        rcases List.eq_nil_or_concat semicolons with hnil | ⟨others, last, rfl⟩
        · exact hnil
        · exact absurd (hall last (by simp)) (hsemicolon last (by simp))
      rw [hnone, List.append_nil]
      cases hstatement with
      | expressionStatement hexpression => exact hexpression

/-- What is parsed by itself is also read as a part of an expression. -/
theorem Parse.IsExpression.reads {limit : Numeral.DigitLimit} {ts : List Token} {node : Node}
    (h : Parse.IsExpression limit ts node) :
    Parser.ReadsExpression limit BindingPower.lowest ts node := by
  obtain ⟨other, hother⟩ := (Parser.readable_of_derives h.derives).item
  obtain ⟨token, first, hparsed⟩ := h.parsed
  let feed := Feed.ofTokens ts
  let rest : Feed := ⟨[], feed.finish⟩
  have hsplit : feed.ahead = ts ++ rest.ahead := (List.append_nil ts).symm
  have hagain : Parse.ofTokens ts limit =
      ⟨.program feed.current [.expressionStatement feed.current other], []⟩ :=
    Parse.ofFeed_of_readsExpression hother hsplit rfl rfl
  rw [hagain] at hparsed
  cases hparsed
  exact hother

/-! ## Operands -/

/-- A primary expression. Brackets leave no trace in the tree. -/
inductive Primary (limit : Numeral.DigitLimit) : List Token → Node → Prop where
  | identifier {token : Token} :
      token.kind = .identifier → Primary limit [token] (.identifier token token.literal)
  | integer {token : Token} {value : Int} :
      token.kind = .integer → Numeral.Written limit token.literal value →
      Primary limit [token] (.integer token value)
  | string {token : Token} :
      token.kind = .string → Primary limit [token] (.string token token.literal)
  | boolean {token : Token} (value : Bool) :
      token.kind = (if value then .trueWord else .falseWord) →
      Primary limit [token] (.boolean token value)
  | grouped {opening closing : Token} {ts : List Token} {node : Node} :
      opening.kind = .leftParen → Parse.IsExpression limit ts node →
      closing.kind = .rightParen → Primary limit (opening :: ts ++ [closing]) node

/-- A call or look-up behind an expression, with what it makes of that expression. -/
inductive Suffix (limit : Numeral.DigitLimit) : List Token → (Node → Node) → Prop where
  | call {opening closing : Token} {ts : List Token} {arguments : List Node} :
      opening.kind = .leftParen → Parser.Separated (Parse.IsExpression limit) ts arguments →
      closing.kind = .rightParen →
      Suffix limit (opening :: ts ++ [closing]) fun callee => .call opening callee arguments
  | index {opening closing : Token} {ts : List Token} {key : Node} :
      opening.kind = .leftBracket → Parse.IsExpression limit ts key →
      closing.kind = .rightBracket →
      Suffix limit (opening :: ts ++ [closing]) fun target => .index opening target key
  | property {period name : Token} :
      period.kind = .period → name.kind = .identifier →
      Suffix limit [period, name] fun target =>
        .index period target (.string name name.literal)

/-- An operand of a chain. -/
structure Term (limit : Numeral.DigitLimit) where
  prefixes : List Token
  core : List Token
  base : Node
  suffixes : List (List Token × (Node → Node))
  prefixes_kind : ∀ operator ∈ prefixes, operator.kind ∈ Kind.prefixOperators
  primary : Primary limit core base
  suffixes_kind : ∀ suffix ∈ suffixes, Suffix limit suffix.1 suffix.2

namespace Term

variable {limit : Numeral.DigitLimit}

def tokens (term : Term limit) : List Token :=
  term.prefixes ++ (term.core ++ term.suffixes.flatMap Prod.fst)

/-- The tree of an operand. All suffixes are applied from left to right, then the operators in
front from right to left. -/
def node (term : Term limit) : Node :=
  term.prefixes.foldr (fun operator right => .prefixed operator operator.literal right)
    (term.suffixes.foldl (fun target suffix => suffix.2 target) term.base)

/-- The tokens of a chain: an operand, and operators with further operands. -/
def chain (first : Term limit) (links : List (Infix × Term limit)) : List Token :=
  first.tokens ++ links.flatMap fun link => link.1.1 :: link.2.tokens

end Term

/-- The tree of a chain that is grouped like this. -/
def OperatorTree.node {limit : Numeral.DigitLimit} : OperatorTree (Term limit) → Node
  | leaf term => term.node
  | join operator left right => .binary operator.1 operator.1.literal left.node right.node

/-! ## Reading operands -/

theorem Primary.reads {limit : Numeral.DigitLimit} {ts : List Token} {node : Node}
    (h : Primary limit ts node) : Parser.ReadsOperand limit ts node := by
  cases h with
  | identifier hkind => exact Parser.readsOperand_identifier hkind
  | integer hkind hwritten =>
      obtain ⟨hread, hle⟩ := (Numeral.reads_iff_written hwritten.digits).2 hwritten
      exact Parser.readsOperand_integer hkind hread hle
  | string hkind => exact Parser.readsOperand_string hkind
  | boolean value hkind => exact Parser.readsOperand_boolean value hkind
  | grouped hopen hinner hclose => exact hinner.reads.grouped hopen hclose

theorem Suffix.reads {limit : Numeral.DigitLimit} {ts : List Token} {extended : Node → Node}
    (h : Suffix limit ts extended) : Parser.ReadsExtension limit ts extended := by
  cases h with
  | call hopen harguments hclose =>
      exact Parser.readsExtension_call (harguments.imp fun _ _ hargument => hargument.reads) hopen
        hclose
  | index hopen hkey hclose => exact Parser.readsExtension_index hkey.reads hopen hclose
  | property hperiod hname => exact Parser.readsExtension_property hperiod hname

theorem Parser.ReadsOperand.extendAll {limit : Numeral.DigitLimit} {ts : List Token} {node : Node}
    {suffixes : List (List Token × (Node → Node))} (h : Parser.ReadsOperand limit ts node)
    (hsuffixes : ∀ suffix ∈ suffixes, Suffix limit suffix.1 suffix.2) :
    Parser.ReadsOperand limit (ts ++ suffixes.flatMap Prod.fst)
      (suffixes.foldl (fun target suffix => suffix.2 target) node) := by
  induction suffixes generalizing ts node with
  | nil => simpa using h
  | cons suffix rest ih =>
      obtain ⟨hsuffix, hrest⟩ := List.forall_mem_cons.1 hsuffixes
      rw [List.flatMap_cons, ← List.append_assoc]
      exact ih (h.extend hsuffix.reads) hrest

theorem Parser.Operand.prefixAll {limit : Numeral.DigitLimit} {ts : List Token} {node : Node}
    {prefixes : List Token} (h : Parser.Operand limit ts node)
    (hprefixes : ∀ operator ∈ prefixes, operator.kind ∈ Kind.prefixOperators) :
    Parser.Operand limit (prefixes ++ ts)
      (prefixes.foldr (fun operator right => .prefixed operator operator.literal right) node) := by
  induction prefixes with
  | nil => exact h
  | cons operator rest ih =>
      obtain ⟨hoperator, hrest⟩ := List.forall_mem_cons.1 hprefixes
      exact .prefixed hoperator (ih hrest)

namespace Term

variable {limit : Numeral.DigitLimit}

theorem operand (term : Term limit) : Parser.Operand limit term.tokens term.node :=
  Parser.Operand.prefixAll (.plain (term.primary.reads.extendAll term.suffixes_kind))
    term.prefixes_kind

/-- An operator and an operand as the parser joins them. -/
def link (link : Infix × Term limit) : Parser.Link :=
  (link.1.1, link.2.node)

theorem chain_links (first : Term limit) (links : List (Infix × Term limit)) :
    Parser.Chain limit (chain first links) first.node (links.map link) := by
  refine ⟨_, _, rfl, first.operand, ?_⟩
  induction links with
  | nil => exact .none
  | cons next rest ih => exact .more next.1.2 next.2.operand ih

end Term

/-! ## Joining operands -/

/-- The parser joins the operands of a grouped tree to that tree, if it does not stop before, and
if what follows binds no tighter than the operator at the top. -/
theorem OperatorTree.Grouped.climbs {limit : Numeral.DigitLimit} {tree : OperatorTree (Term limit)}
    (h : tree.Grouped) {power : Nat} {rest spare : List Parser.Link} {node : Node}
    (hroot : ∀ operator ∈ tree.root?, power < operator.power)
    (hrest : ∀ operator ∈ tree.root?, ∀ link ∈ rest.head?,
      link.1.kind.bindingPower ≤ operator.power)
    (hclimbs : Parser.Climbs power tree.node rest node spare) :
    Parser.Climbs power tree.first.node (tree.links.map Term.link ++ rest) node spare := by
  induction tree generalizing power rest node spare with
  | leaf term => exact hclimbs
  | join operator left right ihLeft ihRight =>
      obtain ⟨hleft, hright, hleftRoot, hrightRoot⟩ := h
      have hpower : power < operator.power := hroot operator rfl
      have hstops : ∀ link ∈ rest.head?, link.1.kind.bindingPower ≤ operator.power :=
        hrest operator rfl
      -- The right child is read at the power of the operator, and reading stops behind it.
      have hrightClimbs : Parser.Climbs operator.power right.first.node
          (right.links.map Term.link ++ rest) right.node rest :=
        ihRight hright hrightRoot (fun inner hinner link hlink =>
          Nat.le_trans (hstops link hlink) (Nat.le_of_lt (hrightRoot inner hinner))) (.stop hstops)
      have hjoined := Parser.Climbs.join hpower hrightClimbs hclimbs
      -- The left child is complete when the operator comes, which binds no tighter.
      have hleftClimbs := ihLeft hleft
        (fun inner hinner => Nat.lt_of_lt_of_le hpower (hleftRoot inner hinner))
        (fun inner hinner link hlink => by
          obtain rfl := Option.some.inj hlink
          exact hleftRoot inner hinner) hjoined
      simpa [links, first, Term.link] using hleftClimbs

/-- A grouped tree is what the parser makes of its operands and operators. -/
theorem OperatorTree.Grouped.readsExpression {limit : Numeral.DigitLimit}
    {tree : OperatorTree (Term limit)} (h : tree.Grouped) :
    Parser.ReadsExpression limit BindingPower.lowest (Term.chain tree.first tree.links)
      tree.node := by
  have hroot : ∀ operator ∈ tree.root?, BindingPower.lowest < operator.power :=
    fun operator _ => (Parser.bounds_of_joining operator.2).1
  have hstop : Parser.Climbs BindingPower.lowest tree.node [] tree.node [] := .stop (by simp)
  have hclimbs := h.climbs hroot (by simp) hstop
  rw [List.append_nil] at hclimbs
  exact (Term.chain_links tree.first tree.links).readsExpression hclimbs

/-! ## Chains -/

/-- A chain of operands and operators is parsed without errors, to the one tree that has them in
this order and is grouped as the binding powers ask for. Numerals are as long as may be read. -/
theorem Parse.chain_grouped (limit : Numeral.DigitLimit) (first : Term limit)
    (links : List (Infix × Term limit)) :
    ∃ tree : OperatorTree (Term limit),
      (tree.Grouped ∧ tree.first = first ∧ tree.links = links) ∧
      (∀ other : OperatorTree (Term limit), other.Grouped → other.first = first →
        other.links = links → other = tree) ∧
      ∃ token, (Term.chain first links).head? = some token ∧
        Parse.ofTokens (Term.chain first links) limit =
          ⟨.program token [.expressionStatement token tree.node], []⟩ ∧
        ∀ source, (Token.scan source).dropLast = Term.chain first links →
          Parse.ofSource source limit =
            ⟨.program token [.expressionStatement token tree.node], []⟩ := by
  obtain ⟨tree, hgrouped, rfl, rfl⟩ := OperatorTree.exists_grouped first links
  refine ⟨tree, ⟨hgrouped, rfl, rfl⟩, fun other hother hfirst hlinks =>
    hother.eq hgrouped hfirst hlinks, ?_⟩
  have hreads := hgrouped.readsExpression
  obtain ⟨token, others, htokens⟩ := List.exists_cons_of_ne_nil hreads.ne_nil
  have hfeed (feed rest : Feed)
      (hsplit : feed.ahead = Term.chain tree.first tree.links ++ rest.ahead)
      (hfinish : rest.finish = feed.finish) (hend : rest.current.kind = .endOfInput) :
      Parse.ofFeed feed limit = ⟨.program token [.expressionStatement token tree.node], []⟩ := by
    have hparse := Parse.ofFeed_of_readsExpression hreads hsplit hfinish hend
    rw [htokens, List.cons_append] at hsplit
    rw [hparse, Feed.current_eq_of_ahead hsplit]
  refine ⟨token, by rw [htokens]; rfl, ?_, fun source hsource => ?_⟩
  · exact hfeed (.ofTokens _) ⟨[], _⟩ (List.append_nil _).symm rfl rfl
  · obtain ⟨ts, last, hfeedEq, hscan, -⟩ := Feed.ofSource_eq source
    rw [Parse.ofSource, hfeedEq]
    exact hfeed _ ⟨[Token.endAt last], last⟩ (by rw [← hsource, hscan]) rfl rfl

/-- An operand that is nothing but a token. -/
def Term.single {limit : Numeral.DigitLimit} {token : Token} {base : Node}
    (h : Primary limit [token] base) : Term limit where
  prefixes := []
  core := [token]
  base := base
  suffixes := []
  prefixes_kind := List.forall_mem_nil _
  primary := h
  suffixes_kind := List.forall_mem_nil _

/-- A token as it comes from outside. -/
def Token.bare (kind : Kind) (literal : String) : Token :=
  ⟨kind, literal, .nowhere⟩

/-- The operand `-f(x).y`. -/
def Term.negatedLookUp : Term Numeral.usualLimit where
  prefixes := [.bare .minus "-"]
  core := [.bare .identifier "f"]
  base := .identifier (.bare .identifier "f") "f"
  suffixes :=
    [([.bare .leftParen "(", .bare .identifier "x", .bare .rightParen ")"],
        fun callee => .call (.bare .leftParen "(") callee
          [.identifier (.bare .identifier "x") "x"]),
      ([.bare .period ".", .bare .identifier "y"],
        fun target => .index (.bare .period ".") target (.string (.bare .identifier "y") "y"))]
  prefixes_kind := by decide
  primary := .identifier rfl
  suffixes_kind := by
    have hargument : Parse.IsExpression Numeral.usualLimit [.bare .identifier "x"]
        (.identifier (.bare .identifier "x") "x") := ⟨⟨_, _, rfl⟩, by decide, by decide⟩
    refine List.forall_mem_cons.2 ⟨.call rfl (.last hargument) rfl, ?_⟩
    exact List.forall_mem_singleton.2 (.property rfl rfl)

/-- The chain `-f(x).y * z`. -/
theorem Parse.chain_grouped_negatedLookUp :
    Parse.ofTokens
        (Term.negatedLookUp.tokens ++ [.bare .asterisk "*", .bare .identifier "z"]) =
      ⟨.program (.bare .minus "-")
        [.expressionStatement (.bare .minus "-")
          (.binary (.bare .asterisk "*") "*" Term.negatedLookUp.node
            (.identifier (.bare .identifier "z") "z"))], []⟩ := by
  let times : Infix := ⟨.bare .asterisk "*", by decide⟩
  have hprimary : Primary Numeral.usualLimit [.bare .identifier "z"]
      (.identifier (.bare .identifier "z") "z") := .identifier rfl
  obtain ⟨tree, -, hunique, token, htoken, hparse, -⟩ :=
    Parse.chain_grouped Numeral.usualLimit .negatedLookUp [(times, .single hprimary)]
  have htree : .join times (.leaf .negatedLookUp) (.leaf (.single hprimary)) = tree :=
    hunique _ (by simp [OperatorTree.Grouped, OperatorTree.root?]) rfl rfl
  cases htree
  cases htoken
  exact hparse

/-! ## Overlong numerals -/

/-- A numeral that is a row of zeros. -/
def Token.zeros (count : Nat) : Token :=
  .bare .integer (String.ofList (List.replicate count '0'))

/-- If numerals may have any length, there is a chain that is not parsed without errors. -/
theorem Parse.not_forall_chain :
    ¬ ∀ (first : Term none) (links : List (Infix × Term none)),
      (Parse.ofTokens (Term.chain first links)).errors = [] := by
  intro h
  let plus : Infix := ⟨.bare .plus "+", by decide⟩
  have hzeros : Numeral.Written none (Token.zeros 4301).literal 0 :=
    Numeral.written_zeros (by decide)
  have hprimary : Primary none [.zeros 4301] (.integer (.zeros 4301) 0) := .integer rfl hzeros
  let term : Term none := .single hprimary
  have herrors := h term [(plus, term)]
  have htokens : Term.chain term [(plus, term)] = [.zeros 4301, plus.1, .zeros 4301] := rfl
  rw [htokens] at herrors
  have hkinds : ∀ kind ∈ [Kind.integer, .plus, .integer], kind ≠ .endOfInput := by decide
  obtain ⟨nodes, -, hderives⟩ := Parse.derives_of_errors_nil herrors fun token htoken =>
    hkinds token.kind (List.mem_map_of_mem htoken)
  obtain ⟨value, hread⟩ := hderives.exists_value (.zeros 4301) List.mem_cons_self rfl
  have hfits := ((Numeral.reads_iff_written hzeros.digits).1 hread).fits 4300 rfl
  have hlength : (Token.zeros 4301).literal.length = 4301 := by
    rw [Token.zeros, Token.bare, String.length_ofList, List.length_replicate]
  omega

end MonkeyLanguage
