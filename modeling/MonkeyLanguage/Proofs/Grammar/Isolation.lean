-- SUMMARY: A semicolon keeps the statements before it apart from those behind it, broken or not.
import MonkeyLanguage.Proofs.Grammar.Joining
import MonkeyLanguage.Proofs.Grammar.Priorities
import MonkeyLanguage.Proofs.Reading.Recovery

/-!
# Isolation

What stands before a semicolon is read in the same way whatever comes behind it, and what comes
behind it as if nothing stood before. For statements without errors that holds of all, and for
broken ones if they start no block. Inside a block it is the same, except that a brace ends the
block.
-/

namespace MonkeyLanguage

namespace Parser

variable {limit : Numeral.DigitLimit} {semicolon : Token} {ts : List Token}

/-- A statement is read in one round, with the semicolons behind it. -/
theorem ReadsStatement.round {semicolons us : List Token} {node : Node} {finish : Position}
    {depth : Nat} (h : ReadsStatement limit semicolons ts node)
    (hfollows : (Feed.mk us finish).current.kind.Follows semicolons)
    (hdepth : (ts ++ semicolons ++ us).length < depth) :
    let feed : Feed := ⟨ts ++ semicolons ++ us, finish⟩
    programStep (expression limit depth) feed = some ⟨some (some [node]), [], ⟨us, finish⟩⟩ ∧
      us.length < feed.ahead.length ∧
      feed.current.kind ∈ .letWord :: .returnWord :: Kind.starters := by
  intro feed
  have hsplit : feed.ahead = ts ++ semicolons ++ us := rfl
  obtain ⟨mid, hpass, hmid⟩ := Feed.Passes.of_split h.ne_nil hsplit
  have hrest : mid.advance = ⟨us, finish⟩ := Feed.eq_of_ahead hmid hpass.finish
  have hless : us.length < mid.ahead.length := hmid ▸ Feed.length_advance_lt hpass.front
  have hle := hpass.length_le
  have hyields := h.yields hpass hdepth (hrest ▸ hfollows)
  have hstarter := hyields.statementStarter
  refine ⟨?_, by omega, hstarter⟩
  rw [← hrest]
  refine (yields_programStep (honest_expression limit depth)).2
    (.inr ⟨?_, node, mid, hyields, rfl, rfl⟩)
  rintro heq
  simp [heq, Kind.starters] at hstarter

theorem follows_of_head {semicolons us : List Token} {finish : Position}
    (hus : ∀ next ∈ us.head?, next.kind ≠ .semicolon) (hne : semicolons ≠ []) :
    (Feed.mk us finish).current.kind.Follows semicolons := by
  refine ⟨?_, fun hnil => absurd hnil hne⟩
  cases us with
  | nil => simp [Feed.current, Token.endAt]
  | cons next us => exact hus next rfl

/-- Statements without errors are read in rounds up to the semicolon behind them, and none of these
rounds reaches further. -/
theorem exists_rounds_of_derives (hsemicolon : semicolon.kind = .semicolon) {nodes : List Node}
    (h : Derives (reads limit) ts (.statements nodes)) (hne : ts ≠ []) :
    ∃ others, ∀ us finish depth, (∀ next ∈ us.head?, next.kind ≠ .semicolon) →
      (ts ++ semicolon :: us).length < depth →
      Rounds (programStep (expression limit depth)) ⟨ts ++ semicolon :: us, finish⟩ others []
          ⟨us, finish⟩ ∧
        (Feed.mk (ts ++ semicolon :: us) finish).current.kind ∈
          .letWord :: .returnWord :: Kind.starters := by
  generalize hphrase : Phrase.statements nodes = phrase at h
  induction h generalizing nodes with
  | noStatements => exact absurd rfl hne
  | @moreStatements ts semicolons rest _ _ hstatement hall _ hnone _ ih =>
      obtain ⟨other, hother⟩ := exists_statement_of_derives hstatement
      by_cases hlast : rest = []
      · subst hlast
        have hlonger : ∀ token ∈ semicolons ++ [semicolon], token.kind = .semicolon := by
          simpa [or_imp, forall_and] using ⟨hall, hsemicolon⟩
        refine ⟨[other] ++ [], fun us finish depth hus hdepth => ?_⟩
        have hfollows : (Feed.mk us finish).current.kind.Follows (semicolons ++ [semicolon]) :=
          follows_of_head hus (by simp)
        obtain ⟨hround, hless, hstarter⟩ :=
          (hother _ hlonger).round hfollows (by simpa using hdepth)
        simp only [List.append_assoc, List.singleton_append, List.append_nil] at *
        exact ⟨.more hround hless .none, hstarter⟩
      · obtain ⟨others, hothers⟩ := ih hlast rfl
        refine ⟨[other] ++ others, fun us finish depth hus hdepth => ?_⟩
        obtain ⟨hrounds, hnext⟩ :=
          hothers us finish depth hus (by simp at hdepth ⊢; omega)
        have hambiguous (hnil : semicolons = []) :
            (Feed.mk (rest ++ semicolon :: us) finish).current.kind ∉ Kind.ambiguous := by
          obtain ⟨first, tail, rfl⟩ := List.exists_cons_of_ne_nil hlast
          exact hnone hnil first rfl
        obtain ⟨hround, hless, hstarter⟩ := (hother _ hall).round
          (follows_of_starter hnext hambiguous) (by simpa using hdepth)
        simp only [List.append_assoc] at hround hless hstarter ⊢
        exact ⟨.more hround hless hrounds, hstarter⟩
  | _ => cases hphrase

/-! ## A function around the statements -/

section

variable {word opening closing brace : Token} (hword : word.kind = .functionWord)
  (hopening : opening.kind = .leftParen) (hclosing : closing.kind = .rightParen)
  (hbrace : brace.kind = .leftBrace)

include hopening hclosing hbrace

/-- A function without parameters is read as far as its body is, with the errors of the body. -/
theorem function_eq {expression : ExpressionParser} {body : List Token} {finish : Position}
    {nodes : List Node} {errors : List ParseError} {rest : Feed}
    (hbody : gather (blockStep expression) ⟨body, finish⟩ = some ⟨some nodes, errors, rest⟩) :
    function expression ⟨word :: opening :: closing :: brace :: body, finish⟩ =
      some ⟨some (.function word [] (.block brace nodes)), errors, rest⟩ := by
  simp [function, block, listUpTo, expect, peek, current, advance, move, Bind.bind, andThen,
    Feed.peek, Feed.current, Feed.advance, hopening, hclosing, hbrace, hbody, Reply.after, pure,
    succeed]

include hword

theorem programStep_function {depth : Nat} {body : List Token} {finish : Position}
    {nodes : List Node} {errors : List ParseError} {last : Token}
    (hbody : gather (blockStep (expression limit depth)) ⟨body, finish⟩ =
      some ⟨some nodes, errors, ⟨[last], finish⟩⟩) :
    programStep (expression limit (depth + 1))
        ⟨word :: opening :: closing :: brace :: body, finish⟩ =
      some ⟨some (some [.expressionStatement word (.function word [] (.block brace nodes))]),
        errors, ⟨[], finish⟩⟩ := by
  have hfunction : function _ ⟨word :: _, _⟩ = _ := function_eq hopening hclosing hbrace hbody
  simp [programStep, statement, expressionStatement, expression, operand, extend, extendUpTo,
    attempt, peek, current, advance, move, Bind.bind, andThen, Feed.current, Feed.advance,
    Feed.peek, Feed.skipSemicolons, Feed.dropSemicolons, Kind.bindingPower, BindingPower.lowest,
    Token.endAt, hword, hfunction, Reply.after, pure, succeed]

end
end Parser

namespace Parse

variable {limit : Numeral.DigitLimit}

/-- What a program is read as, and what more there is if some statements come before it. -/
theorem ofFeed_of_rounds {feed mid : Feed} {nodes : List Node} {errors : List ParseError}
    {depth : Nat}
    (h : Parser.Rounds (Parser.programStep (Parser.expression limit depth)) feed nodes errors mid)
    (hdepth : depth = feed.ahead.length + 1) (hle : mid.ahead.length ≤ feed.ahead.length) :
    (ofFeed feed limit).program.statements = nodes ++ (ofFeed mid limit).program.statements ∧
      (ofFeed feed limit).errors = errors ++ (ofFeed mid limit).errors := by
  subst hdepth
  obtain ⟨⟨others?, more, last⟩, hreply, hparse, -⟩ :=
    ofFeed_reply limit (T := fun _ => True) fun token (_ : token ∈ mid.ahead) => trivial
  obtain ⟨others, rfl⟩ := Option.isSome_iff_exists.1
    (Parser.steady_programStep.gather _ _ hreply)
  have hlast := h.gather (Parser.programStatements_mono (Nat.succ_le_succ hle) hreply)
  have hfeed : ofFeed feed limit = ⟨.program feed.current (nodes ++ others), errors ++ more⟩ := by
    rw [ofFeed, Parser.programStatements, hlast]
    rfl
  rw [hfeed, hparse]
  exact ⟨rfl, rfl⟩

/-- What stands before is not read again: the end of the input is in the same place as without. -/
theorem ofFeed_behind (limit : Numeral.DigitLimit) (ts us : List Token) :
    (ofFeed ⟨us, (Feed.ofTokens (ts ++ us)).finish⟩ limit).program.statements =
        (ofTokens us limit).program.statements ∧
      (ofFeed ⟨us, (Feed.ofTokens (ts ++ us)).finish⟩ limit).errors =
        (ofTokens us limit).errors := by
  by_cases hus : us = []
  · subst hus
    exact ⟨rfl, rfl⟩
  · have hfeed : (⟨us, (Feed.ofTokens (ts ++ us)).finish⟩ : Feed) = Feed.ofTokens us :=
      Feed.eq_of_ahead rfl (by simp [Feed.ofTokens, List.getLast?_append_of_ne_nil _ hus])
    rw [hfeed, ofTokens]
    exact ⟨rfl, rfl⟩

/-- Tokens that are parsed without errors are read as the same statements wherever they lie. -/
theorem exists_sequence_of_errors_nil {ts : List Token} (h : (ofTokens ts limit).errors = [])
    (hend : ∀ token ∈ ts, token.kind ≠ .endOfInput) :
    ∃ nodes, (ofTokens ts limit).program.statements = nodes ∧ Parser.Sequence limit ts nodes := by
  by_cases hts : ts = []
  · subst hts
    exact ⟨[], rfl, .none⟩
  · obtain ⟨_, -, hderives⟩ := derives_of_errors_nil h hend
    obtain ⟨nodes, hsequence, -⟩ := Parser.exists_resumes_of_derives hderives hts
    let rest : Feed := ⟨[], (Feed.ofTokens ts).finish⟩
    have hsplit : (Feed.ofTokens ts).ahead = ts ++ rest.ahead := (List.append_nil ts).symm
    have hyields := hsequence.yields_programStatements hsplit rfl rfl (Nat.lt_succ_self _)
    exact ⟨nodes, by rw [ofTokens, program_of_yields hyields]; rfl, hsequence⟩

section

variable {a b : List Token} {semicolon : Token} (hsemicolon : semicolon.kind = .semicolon)
  (hend : ∀ token ∈ a, token.kind ≠ .endOfInput)

section

variable {nodes : List Node} {errors : List ParseError}
  (h : ∀ us finish depth, (∀ next ∈ us.head?, next.kind ≠ .semicolon) →
    (a ++ semicolon :: us).length < depth →
    Parser.Rounds (Parser.programStep (Parser.expression limit depth))
      ⟨a ++ semicolon :: us, finish⟩ nodes errors ⟨us, finish⟩)

include h

/-- If rounds lead from the tokens before a semicolon to those behind it, whatever these are, then
what they yield comes before what the tokens behind are read as. -/
theorem ofTokens_of_rounds (hb : ∀ next ∈ b.head?, next.kind ≠ .semicolon) :
    (ofTokens (a ++ semicolon :: b) limit).program.statements =
        nodes ++ (ofTokens b limit).program.statements ∧
      (ofTokens (a ++ semicolon :: b) limit).errors = errors ++ (ofTokens b limit).errors := by
  obtain ⟨hnodes, herrors⟩ := ofFeed_of_rounds
    (h b (Feed.ofTokens (a ++ semicolon :: b)).finish _ hb (Nat.lt_succ_self _)) rfl
    (by simp; omega)
  have hsplit : a ++ semicolon :: b = (a ++ [semicolon]) ++ b := by simp
  obtain ⟨hstatements, hmore⟩ := ofFeed_behind limit (a ++ [semicolon]) b
  rw [← hsplit] at hstatements hmore
  exact ⟨hnodes.trans (by rw [hstatements]), herrors.trans (by rw [hmore])⟩

theorem ofTokens_before_of_rounds :
    (ofTokens (a ++ [semicolon]) limit).program.statements = nodes ∧
      (ofTokens (a ++ [semicolon]) limit).errors = errors := by
  have hnil : ofTokens [] limit = ⟨.program (Token.endAt ⟨0, 0⟩) [], []⟩ := rfl
  simpa [hnil, Node.statements] using ofTokens_of_rounds (b := []) h (by simp)

end

include hsemicolon hend

theorem exists_rounds_of_errors
    (h : (ofTokens a limit).errors = [] ∨ ∀ token ∈ a, token.kind ≠ .leftBrace) :
    ∃ nodes errors, ∀ us finish depth, (∀ next ∈ us.head?, next.kind ≠ .semicolon) →
      (a ++ semicolon :: us).length < depth →
      Parser.Rounds (Parser.programStep (Parser.expression limit depth))
        ⟨a ++ semicolon :: us, finish⟩ nodes errors ⟨us, finish⟩ := by
  by_cases hbrace : ∀ token ∈ a, token.kind ≠ .leftBrace
  · let T (token : Token) := token.kind ≠ .leftBrace ∧ token.kind ≠ .endOfInput
    obtain ⟨nodes, errors, hrounds⟩ := Parser.exists_rounds (T := T) (fun _ h => h.1)
      (fun _ h => h.2) hsemicolon limit fun token hmem => ⟨hbrace token hmem, hend token hmem⟩
    exact ⟨nodes, errors, hrounds (Parser.programStep_recovers fun _ h => h.2)⟩
  · obtain ⟨_, -, hderives⟩ := derives_of_errors_nil (h.resolve_right hbrace) hend
    have hne : a ≠ [] := by
      rintro rfl
      exact hbrace (List.forall_mem_nil _)
    obtain ⟨nodes, hrounds⟩ := Parser.exists_rounds_of_derives hsemicolon hderives hne
    exact ⟨nodes, [], fun us finish depth hus hdepth => (hrounds us finish depth hus hdepth).1⟩

/-- A semicolon keeps what comes before it apart from what comes behind it. -/
theorem ofTokens_isolated
    (h : (ofTokens a limit).errors = [] ∨ ∀ token ∈ a, token.kind ≠ .leftBrace)
    (hb : ∀ next ∈ b.head?, next.kind ≠ .semicolon) :
    (ofTokens (a ++ semicolon :: b) limit).program.statements =
        (ofTokens (a ++ [semicolon]) limit).program.statements ++
          (ofTokens b limit).program.statements ∧
      (ofTokens (a ++ semicolon :: b) limit).errors =
        (ofTokens (a ++ [semicolon]) limit).errors ++ (ofTokens b limit).errors := by
  obtain ⟨nodes, errors, hrounds⟩ := exists_rounds_of_errors hsemicolon hend h
  obtain ⟨hnodes, herrors⟩ := ofTokens_of_rounds hrounds hb
  obtain ⟨hbefore, hbeforeErrors⟩ := ofTokens_before_of_rounds hrounds
  rw [hnodes, herrors, hbefore, hbeforeErrors]
  exact ⟨rfl, rfl⟩

omit hend in
/-- In a block the statements are those of a program, and the brace behind them is not reached. -/
theorem exists_blockStatements (hbraces : ∀ token ∈ a,
      token.kind ≠ .leftBrace ∧ token.kind ≠ .rightBrace ∧ token.kind ≠ .endOfInput)
    (hb : ∀ next ∈ b.head?, next.kind ≠ .semicolon)
    (hbEnd : ∀ token ∈ b, token.kind ≠ .endOfInput) (hbErrors : (ofTokens b limit).errors = [])
    {last : Token} (hlast : last.kind = .rightBrace) (finish : Position) {depth : Nat}
    (hdepth : (a ++ semicolon :: (b ++ [last])).length < depth) :
    Parser.gather (Parser.blockStep (Parser.expression limit depth))
        ⟨a ++ semicolon :: (b ++ [last]), finish⟩ =
      some ⟨some ((ofTokens (a ++ [semicolon]) limit).program.statements ++
          (ofTokens b limit).program.statements),
        (ofTokens (a ++ [semicolon]) limit).errors, ⟨[last], finish⟩⟩ := by
  let T (token : Token) :=
    token.kind ≠ .leftBrace ∧ token.kind ≠ .rightBrace ∧ token.kind ≠ .endOfInput
  obtain ⟨nodes, errors, hrounds⟩ := Parser.exists_rounds (T := T) (fun _ h => h.1)
    (fun _ h => h.2.2) hsemicolon limit hbraces
  obtain ⟨hnodes, herrors⟩ :=
    ofTokens_before_of_rounds (hrounds (Parser.programStep_recovers fun _ h => h.2.2))
  have hfront : ∀ next ∈ (b ++ [last]).head?, next.kind ≠ .semicolon := by
    cases b with
    | nil => simp [hlast]
    | cons next b => exact hb
  have hstep : Parser.Recovers T Parser.blockStep :=
    Parser.blockStep_recovers (fun _ h => h.2.2) fun _ h => h.2.1
  have hbody := hrounds hstep (b ++ [last]) finish depth hfront hdepth
  obtain ⟨others, hothers, hsequence⟩ := exists_sequence_of_errors_nil hbErrors hbEnd
  let rest : Feed := ⟨[last], finish⟩
  have hsplit : (Feed.mk (b ++ [last]) finish).ahead = b ++ rest.ahead := rfl
  have hshort : (b ++ [last]).length < depth := by
    simp at hdepth ⊢
    omega
  have hrest := hsequence.yields_blockStatements hsplit rfl hlast hshort
  have hall := hbody.gather hrest
  rw [hall, hnodes, herrors, hothers, List.append_nil]
  rfl

end

/-- A semicolon isolates what comes before it, statements without errors as well as broken ones.

For tokens `a` that are parsed without errors, or among which no block starts, parsing them with a
semicolon and other tokens behind gives the statements and then the errors of both parts, each
parsed by itself. If no brace at all is among them then the same holds in the body of a function. -/
theorem semicolon_isolates (limit : Numeral.DigitLimit) {a b : List Token} {semicolon : Token}
    (hsemicolon : semicolon.kind = .semicolon) (hend : ∀ token ∈ a, token.kind ≠ .endOfInput)
    (hb : ∀ next ∈ b.head?, next.kind ≠ .semicolon) :
    let before := ofTokens (a ++ [semicolon]) limit
    let behind := ofTokens b limit
    (((ofTokens a limit).errors = [] ∨ ∀ token ∈ a, token.kind ≠ .leftBrace) →
        (ofTokens (a ++ semicolon :: b) limit).program.statements =
            before.program.statements ++ behind.program.statements ∧
          (ofTokens (a ++ semicolon :: b) limit).errors = before.errors ++ behind.errors) ∧
      ∀ word opening closing brace last : Token,
        [word.kind, opening.kind, closing.kind, brace.kind, last.kind] =
          [.functionWord, .leftParen, .rightParen, .leftBrace, .rightBrace] →
        (∀ token ∈ a, token.kind ≠ .leftBrace ∧ token.kind ≠ .rightBrace) →
        (∀ token ∈ b, token.kind ≠ .endOfInput) → behind.errors = [] →
        ofTokens ([word, opening, closing, brace] ++ a ++ semicolon :: (b ++ [last])) limit =
          ⟨.program word [.expressionStatement word (.function word []
              (.block brace (before.program.statements ++ behind.program.statements)))],
            before.errors⟩ := by
  refine ⟨fun h => ofTokens_isolated hsemicolon hend h hb, ?_⟩
  intro word opening closing brace last hkinds hbraces hbEnd hbErrors
  simp only [List.cons.injEq, and_true] at hkinds
  obtain ⟨hword, hopening, hclosing, hbrace, hlast⟩ := hkinds
  let tokens := [word, opening, closing, brace] ++ a ++ semicolon :: (b ++ [last])
  have hshort : (a ++ semicolon :: (b ++ [last])).length < tokens.length := by
    simp [tokens]
    omega
  have hbody := exists_blockStatements hsemicolon
    (fun t ht => ⟨(hbraces t ht).1, (hbraces t ht).2, hend t ht⟩) hb hbEnd hbErrors hlast
    (Feed.ofTokens tokens).finish hshort
  have hstep := Parser.programStep_function hword hopening hclosing hbrace hbody
  have hstop : Parser.gather (Parser.programStep (Parser.expression limit (tokens.length + 1)))
      ⟨[], (Feed.ofTokens tokens).finish⟩ =
        some ⟨some [], [], ⟨[], (Feed.ofTokens tokens).finish⟩⟩ := rfl
  have hall : Parser.programStatements (Parser.expression limit (tokens.length + 1))
      (Feed.ofTokens tokens) = _ := (Parser.Rounds.more hstep (by simp) .none).gather hstop
  show ofFeed (Feed.ofTokens tokens) limit = _
  have hlength : (Feed.ofTokens tokens).ahead.length = tokens.length := rfl
  rw [ofFeed, hlength, hall]
  simp [Feed.ofTokens, Feed.current, tokens]

/-- A name is missing in `let 5`, but in `let 5; x` and in `fn() { let 5; x }` the `x` is read. -/
theorem semicolon_isolates_letNumber :
    let token (kind : Kind) (literal : String) : Token := ⟨kind, literal, .start⟩
    let broken := [token .letWord "let", token .integer "5"]
    let name := token .identifier "x"
    let word := token .functionWord "fn"
    let brace := token .leftBrace "\x7b"
    let nodes := [Node.expressionStatement name (.identifier name "x")]
    (ofTokens (broken ++ token .semicolon ";" :: [name])).program.statements = nodes ∧
      (ofTokens (broken ++ token .semicolon ";" :: [name])).errors =
        [.expected .identifier .integer] ∧
      ofTokens ([word, token .leftParen "(", token .rightParen ")", brace] ++ broken ++
          token .semicolon ";" :: ([name] ++ [token .rightBrace "\x7d"])) =
        ⟨.program word [.expressionStatement word (.function word [] (.block brace nodes))],
          [.expected .identifier .integer]⟩ := by
  intro token broken name word brace nodes
  have hsemicolon : (token .semicolon ";").kind = .semicolon := rfl
  have hend : ∀ token ∈ broken, token.kind ≠ .endOfInput := by decide
  have hname : ∀ next ∈ [name].head?, next.kind ≠ .semicolon := by decide
  obtain ⟨hprogram, hbody⟩ := semicolon_isolates Numeral.usualLimit hsemicolon hend hname
  obtain ⟨hstatements, herrors⟩ := hprogram (.inr (by decide))
  exact ⟨hstatements, herrors, hbody word (token .leftParen "(") (token .rightParen ")") brace
    (token .rightBrace "\x7d") rfl (by decide) (by decide) rfl⟩

end Parse

end MonkeyLanguage
