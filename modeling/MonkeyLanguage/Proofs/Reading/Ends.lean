-- SUMMARY: End tokens make no difference, however many there are, and none gets into a tree.
import MonkeyLanguage.Proofs.Reading.Recovery
import MonkeyLanguage.Proofs.Scanning.Shape

/-!
# Ends

A feed never runs dry, so it makes no difference whether its end tokens stand in its list, how many
of them there are, and where in the source they say they stand: feeds that are the same up to their
end tokens are in tandem, also behind a failure and in a block that is cut off. So a source is read
in the same way from its text and from its tokens, with or without an end token behind them.

The trees are made of tokens of the list. So in the tree of a source there is no end token, because
it is read in the same way where its list has none.
-/

namespace MonkeyLanguage

/-! ## Up to the end -/

namespace Feed

/-- The same tokens, up to end tokens, of which the second list has no fewer. -/
inductive SameToEnd : List Token → List Token → Prop where
  | ends {ts us : List Token} :
      (∀ token ∈ ts, token.kind = .endOfInput) → (∀ token ∈ us, token.kind = .endOfInput) →
      ts.length ≤ us.length → SameToEnd ts us
  | cons {token : Token} {ts us : List Token} :
      token.kind ≠ .endOfInput → SameToEnd ts us → SameToEnd (token :: ts) (token :: us)

namespace SameToEnd

variable {ts us : List Token}

theorem length_le (h : SameToEnd ts us) : ts.length ≤ us.length := by
  induction h with
  | ends _ _ hle => exact hle
  | cons _ _ ih => exact Nat.succ_le_succ ih

theorem tail (h : SameToEnd ts us) : SameToEnd ts.tail us.tail := by
  cases h with
  | ends hends hends' hle =>
      refine .ends (fun token hmem => hends token (List.mem_of_mem_tail hmem))
        (fun token hmem => hends' token (List.mem_of_mem_tail hmem)) ?_
      simp only [List.length_tail]
      omega
  | cons _ h => exact h

theorem kind_headD_of_ends (hends : ∀ token ∈ ts, token.kind = .endOfInput) (finish : Position) :
    (ts.headD (Token.endAt finish)).kind = .endOfInput := by
  cases ts with
  | nil => rfl
  | cons token ts => exact hends token List.mem_cons_self

theorem kind_headD (h : SameToEnd ts us) (finish finish' : Position) :
    (us.headD (Token.endAt finish')).kind = (ts.headD (Token.endAt finish)).kind := by
  cases h with
  | ends hends hends' _ => rw [kind_headD_of_ends hends, kind_headD_of_ends hends']
  | cons => rfl

theorem headD_eq (h : SameToEnd ts us) {finish : Position} (finish' : Position)
    (hkind : (ts.headD (Token.endAt finish)).kind ≠ .endOfInput) :
    us.headD (Token.endAt finish') = ts.headD (Token.endAt finish) := by
  cases h with
  | ends hends _ _ => exact absurd (kind_headD_of_ends hends finish) hkind
  | cons => rfl

theorem dropWhile_of_ends {goes : Token → Bool}
    (hgoes : ∀ token, token.kind = .endOfInput → goes token = false)
    (hends : ∀ token ∈ ts, token.kind = .endOfInput) : ts.dropWhile goes = ts := by
  cases ts with
  | nil => rfl
  | cons token ts => simp [hgoes token (hends token List.mem_cons_self)]

/-- End tokens are never skipped. -/
theorem dropWhile {goes : Token → Bool}
    (hgoes : ∀ token, token.kind = .endOfInput → goes token = false) (h : SameToEnd ts us) :
    SameToEnd (ts.dropWhile goes) (us.dropWhile goes) := by
  induction h with
  | ends hends hends' hle =>
      rw [dropWhile_of_ends hgoes hends, dropWhile_of_ends hgoes hends']
      exact .ends hends hends' hle
  | @cons token _ _ hkind h ih =>
      cases hfront : goes token with
      | true => simpa [hfront] using ih
      | false => simpa [hfront] using h.cons hkind

theorem dropSemicolons_cons_of_ends (front : Token)
    (hends : ∀ token ∈ ts, token.kind = .endOfInput) :
    Feed.dropSemicolons (front :: ts) = front :: ts := by
  cases ts with
  | nil => rfl
  | cons next ts => simp [Feed.dropSemicolons, hends next List.mem_cons_self]

theorem dropSemicolons_of_ends (hends : ∀ token ∈ ts, token.kind = .endOfInput) :
    Feed.dropSemicolons ts = ts := by
  cases ts with
  | nil => rfl
  | cons front ts => exact dropSemicolons_cons_of_ends front (List.forall_mem_cons.1 hends).2

theorem dropSemicolons (h : SameToEnd ts us) :
    SameToEnd (Feed.dropSemicolons ts) (Feed.dropSemicolons us) := by
  induction h with
  | ends hends hends' hle =>
      rw [dropSemicolons_of_ends hends, dropSemicolons_of_ends hends']
      exact .ends hends hends' hle
  | cons hkind h ih =>
      cases h with
      | ends hends hends' hle =>
          rw [dropSemicolons_cons_of_ends _ hends, dropSemicolons_cons_of_ends _ hends']
          exact .cons hkind (.ends hends hends' hle)
      | @cons next _ _ hnext h =>
          by_cases hsemicolon : next.kind = .semicolon
          · simpa [Feed.dropSemicolons, hsemicolon] using ih
          · simpa [Feed.dropSemicolons, hsemicolon] using (h.cons hnext).cons hkind

theorem append {ends ends' : List Token} (hts : ∀ token ∈ ts, token.kind ≠ .endOfInput)
    (h : SameToEnd ends ends') : SameToEnd (ts ++ ends) (ts ++ ends') := by
  induction ts with
  | nil => exact h
  | cons token ts ih =>
      obtain ⟨htoken, hts⟩ := List.forall_mem_cons.1 hts
      exact .cons htoken (ih hts)

end SameToEnd

/-- Skipping stops at the end at the latest. -/
theorem onward_toEnd :
    Onward (fun feed feed' => SameToEnd feed.ahead feed'.ahead)
      fun feed feed' => SameToEnd feed.ahead feed'.ahead :=
  fun h => ⟨h, fun _ => h.dropWhile fun _ hkind => by simp [hkind]⟩

end Feed

/-- Feeds that are the same up to their end tokens, of which the second one has no fewer. -/
def Tandem.toEnd : Tandem where
  At feed feed' := Feed.SameToEnd feed.ahead feed'.ahead
  Before feed feed' := Feed.SameToEnd feed.ahead feed'.ahead
  at_of_before h := h
  current_kind h := h.kind_headD _ _
  current_eq h hkind := h.headD_eq _ hkind
  peek_kind h := h.tail.kind_headD _ _
  at_advance h := h.tail
  at_skipSemicolons h := h.dropSemicolons
  before_of_kind h _ := h
  length_le h := h.length_le
  no_block_or_onward := .inr Feed.onward_toEnd

/-- Where feeds are the same up to their end tokens, they are read in the same way. -/
theorem Parse.ofFeed_toEnd (limit : Numeral.DigitLimit) {feed feed' : Feed}
    (h : Feed.SameToEnd feed.ahead feed'.ahead) :
    (ofFeed feed' limit).program.statements = (ofFeed feed limit).program.statements ∧
      (ofFeed feed' limit).errors = (ofFeed feed limit).errors := by
  obtain ⟨statements, errors, rest, hreply, hparse⟩ := exists_statements limit feed
  have hexpression := Parser.keeps_expression .toEnd limit (Nat.succ_le_succ h.length_le)
  obtain ⟨rest', hreply', -⟩ :=
    (Parser.keeps_programStep hexpression Feed.onward_toEnd).gather (fun h => h) feed feed' h
      _ hreply
  have hreads : Parser.programStatements (Parser.expression limit (feed'.ahead.length + 1)) feed' =
      some ⟨some statements, errors, rest'⟩ := hreply'
  rw [hparse, ofFeed, hreads]
  exact ⟨rfl, rfl⟩

/-! ## Tokens in trees -/

namespace Node

mutual

/-- The tokens that the nodes of a tree were made from. -/
def tokens : Node → List Token
  | program token statements => token :: tokensOfAll statements
  | letStatement token name value => token :: (name.tokens ++ value.tokens)
  | returnStatement token value => token :: value.tokens
  | expressionStatement token value => token :: value.tokens
  | block token statements => token :: tokensOfAll statements
  | identifier token _ => [token]
  | integer token _ => [token]
  | string token _ => [token]
  | boolean token _ => [token]
  | prefixed token _ right => token :: right.tokens
  | binary token _ left right => token :: (left.tokens ++ right.tokens)
  | conditional token condition consequence alternative =>
    token :: (condition.tokens ++ consequence.tokens ++ alternative.tokens)
  | function token parameters body => token :: (tokensOfAll parameters ++ body.tokens)
  | call token callee arguments => token :: (callee.tokens ++ tokensOfAll arguments)
  | array token elements => token :: tokensOfAll elements
  | hash token pairs => token :: tokensOfPairs pairs
  | index token target key => token :: (target.tokens ++ key.tokens)
  | missing => []
  | foreign => []

/-- The tokens of several trees. -/
def tokensOfAll : List Node → List Token
  | [] => []
  | node :: rest => node.tokens ++ tokensOfAll rest

/-- The tokens of pairs of trees. -/
def tokensOfPairs : List (Node × Node) → List Token
  | [] => []
  | (key, value) :: rest => key.tokens ++ value.tokens ++ tokensOfPairs rest

end

variable {T : Token → Prop}

theorem forall_mem_tokensOfAll {nodes : List Node}
    (h : ∀ node ∈ nodes, ∀ token ∈ node.tokens, T token) :
    ∀ token ∈ tokensOfAll nodes, T token := by
  induction nodes with
  | nil => exact List.forall_mem_nil _
  | cons node nodes ih =>
      obtain ⟨hnode, hnodes⟩ := List.forall_mem_cons.1 h
      exact List.forall_mem_append.2 ⟨hnode, ih hnodes⟩

theorem forall_mem_tokensOfPairs {pairs : List (Node × Node)}
    (h : ∀ pair ∈ pairs, ∀ token ∈ pair.1.tokens ++ pair.2.tokens, T token) :
    ∀ token ∈ tokensOfPairs pairs, T token := by
  induction pairs with
  | nil => exact List.forall_mem_nil _
  | cons pair pairs ih =>
      obtain ⟨hpair, hpairs⟩ := List.forall_mem_cons.1 h
      exact List.forall_mem_append.2 ⟨hpair, ih hpairs⟩

end Node

namespace Phrase

mutual

/-- The tokens of the trees in a phrase. -/
def tokens : Phrase → List Token
  | expression node | parameter node | statement node | block node => node.tokens
  | pair key value => key.tokens ++ value.tokens
  | list items => tokensOfItems items
  | statements nodes => Node.tokensOfAll nodes

/-- The tokens of the trees in several phrases. -/
def tokensOfItems : List Phrase → List Token
  | [] => []
  | item :: rest => item.tokens ++ tokensOfItems rest

end

end Phrase

/-- In trees that are made of some tokens there are no other ones. -/
theorem Made.forall_mem_tokens {limit : Numeral.DigitLimit} {T : Token → Prop} {phrase : Phrase}
    (h : Made limit T phrase) : ∀ token ∈ phrase.tokens, T token := by
  induction h with
  | identifier htoken _ => exact List.forall_mem_singleton.2 htoken
  | integer htoken _ _ => exact List.forall_mem_singleton.2 htoken
  | string htoken _ => exact List.forall_mem_singleton.2 htoken
  | trueWord htoken _ => exact List.forall_mem_singleton.2 htoken
  | falseWord htoken _ => exact List.forall_mem_singleton.2 htoken
  | parameter htoken _ => exact List.forall_mem_singleton.2 htoken
  | prefixed hoperator _ _ hright => exact List.forall_mem_cons.2 ⟨hoperator, hright⟩
  | conditional hword _ _ hcondition hblock =>
      refine List.forall_mem_cons.2 ⟨hword, List.forall_mem_append.2 ⟨?_, List.forall_mem_nil _⟩⟩
      exact List.forall_mem_append.2 ⟨hcondition, hblock⟩
  | choice hword _ _ _ hcondition hblock halternative =>
      refine List.forall_mem_cons.2 ⟨hword, List.forall_mem_append.2 ⟨?_, halternative⟩⟩
      exact List.forall_mem_append.2 ⟨hcondition, hblock⟩
  | function hword _ _ _ hparameters hbody =>
      refine List.forall_mem_cons.2 ⟨hword, List.forall_mem_append.2 ⟨?_, hbody⟩⟩
      exact Node.forall_mem_tokensOfAll hparameters
  | array hopening _ helements =>
      exact List.forall_mem_cons.2 ⟨hopening, Node.forall_mem_tokensOfAll helements⟩
  | hash hopening _ hpairs =>
      exact List.forall_mem_cons.2 ⟨hopening, Node.forall_mem_tokensOfPairs hpairs⟩
  | binary _ hoperator _ _ hleft hright =>
      exact List.forall_mem_cons.2 ⟨hoperator, List.forall_mem_append.2 ⟨hleft, hright⟩⟩
  | call _ hopening _ hcallee harguments =>
      refine List.forall_mem_cons.2 ⟨hopening, List.forall_mem_append.2 ⟨hcallee, ?_⟩⟩
      exact Node.forall_mem_tokensOfAll harguments
  | index _ hopening _ htarget hkey =>
      exact List.forall_mem_cons.2 ⟨hopening, List.forall_mem_append.2 ⟨htarget, hkey⟩⟩
  | property _ hperiod hname _ htarget =>
      refine List.forall_mem_cons.2 ⟨hperiod, List.forall_mem_append.2 ⟨htarget, ?_⟩⟩
      exact List.forall_mem_singleton.2 hname
  | pair _ _ hkey hvalue => exact List.forall_mem_append.2 ⟨hkey, hvalue⟩
  | letStatement hword _ hname _ _ hvalue =>
      refine List.forall_mem_cons.2 ⟨hword, List.forall_mem_append.2 ⟨?_, hvalue⟩⟩
      exact List.forall_mem_singleton.2 hname
  | returnStatement hword _ _ hvalue => exact List.forall_mem_cons.2 ⟨hword, hvalue⟩
  | expressionStatement hfirst _ hvalue => exact List.forall_mem_cons.2 ⟨hfirst, hvalue⟩
  | block hopening _ hnodes =>
      exact List.forall_mem_cons.2 ⟨hopening, Node.forall_mem_tokensOfAll hnodes⟩

/-- The statements that are read from a feed are made of the tokens in its list. -/
theorem Parse.tokens_ofFeed (limit : Numeral.DigitLimit) (feed : Feed) :
    ∀ statement ∈ (ofFeed feed limit).program.statements, ∀ token ∈ statement.tokens,
      token ∈ feed.ahead := by
  obtain ⟨reply, -, hparse, hmade⟩ :=
    ofFeed_reply limit (fun _ h => h : ∀ token ∈ feed.ahead, token ∈ feed.ahead)
  rw [hparse]
  cases hvalue : reply.value? with
  | none => exact List.forall_mem_nil _
  | some nodes => exact fun node hnode => (hmade nodes hvalue node hnode).forall_mem_tokens

/-! ## Sources -/

/-- Source text is read in the same way from the text, from its tokens, from these without the end
token behind them, and with any further end tokens there. All give the statements and the errors
that the reader replies with, and no end token is in a statement. -/
theorem Parse.feeds_agree (source : String) (limit : Numeral.DigitLimit) (extra : List Token)
    (hextra : ∀ token ∈ extra, token.kind = .endOfInput) :
    ∃ tokens finish statements errors rest, Token.scan source = tokens ++ [Token.endAt finish] ∧
      Parser.programStatements (Parser.expression limit (tokens.length + 1)) (.ofTokens tokens) =
        some ⟨some statements, errors, rest⟩ ∧
      (∀ parse ∈ [ofSource source limit, ofTokens (Token.scan source) limit, ofTokens tokens limit,
          ofTokens (Token.scan source ++ extra) limit],
        parse.program.statements = statements ∧ parse.errors = errors) ∧
      ∀ statement ∈ statements, ∀ token ∈ statement.tokens,
        token ∈ tokens ∧ token.kind ≠ .endOfInput := by
  obtain ⟨tokens, finish, hscan, -, hall⟩ := Token.scan_eq source
  have htokens : ∀ token ∈ tokens, token.kind ≠ .endOfInput := fun token hmem => (hall token hmem).2
  obtain ⟨statements, errors, rest, hreply, hparse⟩ := exists_statements limit (.ofTokens tokens)
  -- All of them are compared to the shortest one, in whose list there is no end token.
  have hread {ends : List Token} (hends : ∀ token ∈ ends, token.kind = .endOfInput) {feed : Feed}
      (hfeed : feed.ahead = tokens ++ ends) :
      (ofFeed feed limit).program.statements = statements ∧
        (ofFeed feed limit).errors = errors := by
    have hsame : Feed.SameToEnd (Feed.ofTokens tokens).ahead feed.ahead := by
      have hnone := Feed.SameToEnd.append htokens
        (.ends (List.forall_mem_nil _) hends (Nat.zero_le _))
      rwa [List.append_nil, ← hfeed] at hnone
    have hsameRead := ofFeed_toEnd limit hsame
    rw [hparse] at hsameRead
    exact hsameRead
  have hend : ∀ token ∈ [Token.endAt finish], token.kind = .endOfInput :=
    List.forall_mem_singleton.2 rfl
  have hmore : ∀ token ∈ [Token.endAt finish] ++ extra, token.kind = .endOfInput :=
    List.forall_mem_append.2 ⟨hend, hextra⟩
  refine ⟨tokens, finish, statements, errors, rest, hscan, hreply, ?_, ?_⟩
  · refine List.forall_mem_cons.2 ⟨hread hend hscan, List.forall_mem_cons.2 ⟨hread hend hscan, ?_⟩⟩
    refine List.forall_mem_cons.2 ⟨hread (List.forall_mem_nil _) (List.append_nil _).symm, ?_⟩
    refine List.forall_mem_singleton.2 (hread hmore ?_)
    rw [← List.append_assoc, ← hscan]
    rfl
  · intro statement hstatement token htoken
    have hmem := tokens_ofFeed limit (.ofTokens tokens) statement (by rwa [hparse]) token htoken
    exact ⟨hmem, htokens token hmem⟩

/-- So it is for a function that is cut off behind a broken statement. -/
theorem Parse.feeds_agree_unclosed :
    let source := "fn(a) \x7b let b 5; a"
    let extra := [Token.endAt ⟨7, 7⟩, Token.endAt .nowhere]
    (∀ token ∈ extra, token.kind = .endOfInput) ∧
      (ofSource source).errors =
        [.expected .assign .integer, .expected .rightBrace .endOfInput] ∧
      ∃ tokens finish statements errors rest,
        Token.scan source = tokens ++ [Token.endAt finish] ∧
        Parser.programStatements (Parser.expression Numeral.usualLimit (tokens.length + 1))
          (.ofTokens tokens) = some ⟨some statements, errors, rest⟩ ∧
        (∀ parse ∈ [ofSource source, ofTokens (Token.scan source), ofTokens tokens,
            ofTokens (Token.scan source ++ extra)],
          parse.program.statements = statements ∧ parse.errors = errors) ∧
        ∀ statement ∈ statements, ∀ token ∈ statement.tokens,
          token ∈ tokens ∧ token.kind ≠ .endOfInput := by
  intro source extra
  have hextra : ∀ token ∈ extra, token.kind = .endOfInput := by decide
  exact ⟨hextra, by decide +kernel, feeds_agree source Numeral.usualLimit extra hextra⟩

end MonkeyLanguage
