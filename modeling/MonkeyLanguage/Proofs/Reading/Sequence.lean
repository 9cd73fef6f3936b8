-- SUMMARY: What statements, blocks and programs read when the right tokens lie ahead.
import MonkeyLanguage.Proofs.Grammar
import MonkeyLanguage.Proofs.Reading.Reads

/-!
# Sequences of statements

A statement takes all the semicolons behind it. If there are none, it ends where its
expression does, so the next statement must not start with what could go on with that one.
-/

namespace MonkeyLanguage

namespace Parser

open Feed

variable {limit : Numeral.DigitLimit} {depth : Nat} {feed rest : Feed} {ts us : List Token}
  {value : Node}

/-! ## Statements -/

/-- The expression that ends a statement, with the semicolons behind it. -/
theorem ReadsExpression.lastOfStatement {semicolons : List Token}
    (h : ReadsExpression limit BindingPower.lowest ts value)
    (hall : ∀ token ∈ semicolons, token.kind = .semicolon)
    (hpass : feed.Passes (ts ++ semicolons) rest) (hdepth : feed.ahead.length < depth)
    (hfollows : rest.advance.current.kind.Follows semicolons) :
    ∃ mid, Yields (Parser.expression limit depth BindingPower.lowest) feed value mid ∧
      rest = mid.skipSemicolons := by
  by_cases hnone : semicolons = []
  · subst hnone
    rw [List.append_nil] at hpass
    exact ⟨rest, h.yields hpass hdepth (hfollows.ends rfl),
      (skipSemicolons_of_not hfollows.no_semicolon).symm⟩
  · obtain ⟨mid, hmid, hrest⟩ := (passes_append h.ne_nil hnone).1 hpass
    have hkind : mid.advance.current.kind = .semicolon := by
      obtain ⟨first, others, rfl⟩ := List.exists_cons_of_ne_nil hnone
      have hfirst : mid.advance.current = first := current_eq_of_ahead hrest.split
      exact hfirst ▸ hall first List.mem_cons_self
    refine ⟨mid, h.yields hmid hdepth ?_, (hrest.skipSemicolons_eq hall hfollows.no_semicolon).symm⟩
    rw [hkind]
    exact ⟨by decide, by decide⟩

/-- A statement with the semicolons behind it. -/
abbrev ReadsStatement (limit : Numeral.DigitLimit) (semicolons ts : List Token)
    (node : Node) : Prop :=
  Reads limit statement (·.Follows semicolons) (ts ++ semicolons) node

section

variable {semicolons : List Token} (h : ReadsExpression limit BindingPower.lowest ts value)
  (hall : ∀ token ∈ semicolons, token.kind = .semicolon)
include h hall

theorem ReadsExpression.letStatement {word name sign : Token} (hword : word.kind = .letWord)
    (hname : name.kind = .identifier) (hsign : sign.kind = .assign) :
    ReadsStatement limit semicolons (word :: name :: sign :: ts)
      (.letStatement word (.identifier name name.literal) value) where
  ne_nil := by simp
  yields := by
    intro depth feed rest hpass hdepth hfits
    have hts := h.ne_nil
    obtain ⟨hahead, rfl, hnext⟩ := (passes_cons (by simp)).1 hpass
    obtain ⟨hahead', rfl, hthird⟩ := (passes_cons (by simp)).1 hnext
    obtain ⟨hahead'', rfl, hlast⟩ := (passes_cons (by simp [hts])).1 hthird
    have hless : feed.advance.advance.advance.ahead.length < depth :=
      Nat.lt_trans (length_advance_lt hahead'') (Nat.lt_trans (length_advance_lt hahead')
        (Nat.lt_trans (length_advance_lt hahead) hdepth))
    rw [yields_statement, hword]
    obtain ⟨mid, hvalue, hskip⟩ := h.lastOfStatement hall hlast hless hfits
    exact yields_letStatement.2 ⟨hname, hsign, value, mid, hvalue, hskip, rfl⟩

theorem ReadsExpression.returnStatement {word : Token} (hword : word.kind = .returnWord) :
    ReadsStatement limit semicolons (word :: ts) (.returnStatement word value) where
  ne_nil := by simp
  yields := by
    intro depth feed rest hpass hdepth hfits
    have hts := h.ne_nil
    obtain ⟨hahead, rfl, hlast⟩ := (passes_cons (by simp [hts])).1 hpass
    have hless := Nat.lt_trans (length_advance_lt hahead) hdepth
    rw [yields_statement, hword]
    obtain ⟨mid, hvalue, hskip⟩ := h.lastOfStatement hall hlast hless hfits
    exact yields_returnStatement.2 ⟨value, mid, hvalue, hskip, rfl⟩

theorem ReadsExpression.expressionStatement :
    ∃ first others, ts = first :: others ∧
      ReadsStatement limit semicolons ts (.expressionStatement first value) := by
  obtain ⟨first, others, rfl⟩ := List.exists_cons_of_ne_nil h.ne_nil
  refine ⟨first, others, rfl, by simp, ?_⟩
  intro depth feed rest hpass hdepth hfits
  obtain ⟨mid, hvalue, hskip⟩ := h.lastOfStatement hall hpass hdepth hfits
  have hfirst : feed.current = first := current_eq_of_ahead hpass.split
  have hstatement := yields_expressionStatement.2 ⟨value, mid, hvalue, hskip, rfl⟩
  rw [hfirst] at hstatement
  have hstarter := hvalue.starter
  rw [yields_statement]
  split
  case h_1 hkind => simp [hkind, Kind.starters] at hstarter
  case h_2 hkind => simp [hkind, Kind.starters] at hstarter
  case h_3 => exact hstatement

end

/-! ## Sequences -/

/-- The tokens are those of statements that are read one after the other. -/
inductive Sequence (limit : Numeral.DigitLimit) : List Token → List Node → Prop where
  | none : Sequence limit [] []
  | more {ts semicolons us : List Token} {node : Node} {nodes : List Node} :
      ReadsStatement limit semicolons ts node → Sequence limit us nodes →
      (semicolons = [] → ∀ next ∈ us.head?, next.kind ∉ Kind.ambiguous) →
      Sequence limit (ts ++ semicolons ++ us) (node :: nodes)

/-- A kind that ends a sequence of statements. -/
structure Stops (stop : Kind) : Prop where
  ends : stop.Ends BindingPower.lowest
  no_semicolon : stop ≠ .semicolon

theorem follows_of_starter {kind : Kind} {semicolons : List Token}
    (h : kind ∈ .letWord :: .returnWord :: Kind.starters)
    (hnone : semicolons = [] → kind ∉ Kind.ambiguous) : kind.Follows semicolons := by
  refine ⟨?_, fun hnil => ⟨?_, ?_⟩⟩
  · rintro rfl
    simp [Kind.starters] at h
  · have hnot := hnone hnil
    cases kind <;> simp_all [Kind.starters, Kind.ambiguous, Kind.bindingPower, BindingPower.lowest]
  · rintro rfl
    simp [Kind.starters] at h

/-- A sequence is read by any step that reads one statement and stops at the right kind. -/
theorem Sequence.yields {stop : Kind} {step : Parser (Option (List Node))} {nodes : List Node}
    (hstops : Stops stop)
    (hstop : ∀ {feed}, feed.current.kind = stop → Yields step feed .none feed)
    (hmore : ∀ {feed node rest}, Yields (statement (Parser.expression limit depth)) feed node rest →
      Yields step feed (some [node]) rest.advance)
    (h : Sequence limit ts nodes) (hsplit : feed.ahead = ts ++ rest.ahead)
    (hfinish : rest.finish = feed.finish) (hrest : rest.current.kind = stop)
    (hdepth : feed.ahead.length < depth) :
    Yields (gather step) feed nodes rest ∧
      (feed = rest ∨ feed.current ∈ ts.head? ∧
        feed.current.kind ∈ .letWord :: .returnWord :: Kind.starters) := by
  induction h generalizing feed with
  | none =>
      obtain rfl : feed = rest := by
        cases feed
        cases rest
        simp_all
      exact ⟨Yields.gather_stop (hstop hrest), .inl rfl⟩
  | @more ts semicolons us node nodes hnode _ hnone ih =>
      rw [List.append_assoc] at hsplit
      obtain ⟨mid, hpass, hmid⟩ := Passes.of_split hnode.ne_nil hsplit
      have hless := length_advance_lt hpass.front
      have hle := hpass.length_le
      obtain ⟨hothers, hnext⟩ :=
        ih hmid (hfinish.trans hpass.finish.symm) (by omega)
      have hfollows : mid.advance.current.kind.Follows semicolons := by
        rcases hnext with rfl | ⟨hhead, hstarter⟩
        · rw [hrest]
          exact ⟨hstops.no_semicolon, fun _ => hstops.ends⟩
        · exact follows_of_starter hstarter fun hnil => hnone hnil _ hhead
      have hyields := hnode.yields hpass hdepth hfollows
      refine ⟨Yields.gather_more (hmore hyields) (by omega) hothers,
        .inr ⟨?_, hyields.statementStarter⟩⟩
      obtain ⟨first, others, hcons⟩ := List.exists_cons_of_ne_nil hnode.ne_nil
      rw [← List.append_assoc, hcons] at hsplit
      simp [hcons, current_eq_of_ahead hsplit]

/-! ## Blocks and programs -/

theorem Sequence.yields_blockStatements {nodes : List Node} (h : Sequence limit ts nodes)
    (hsplit : feed.ahead = ts ++ rest.ahead) (hfinish : rest.finish = feed.finish)
    (hclose : rest.current.kind = .rightBrace) (hdepth : feed.ahead.length < depth) :
    Yields (gather (blockStep (Parser.expression limit depth))) feed nodes rest := by
  have hhonest := honest_expression limit depth
  have hstop {feed : Feed} (hkind : feed.current.kind = .rightBrace) :
      Yields (blockStep (Parser.expression limit depth)) feed .none feed :=
    (yields_blockStep hhonest).2 (.inl ⟨hkind, rfl, rfl⟩)
  have hmore {feed rest : Feed} {node : Node}
      (hnode : Yields (statement (Parser.expression limit depth)) feed node rest) :
      Yields (blockStep (Parser.expression limit depth)) feed (some [node]) rest.advance := by
    have hstarter := hnode.statementStarter
    refine (yields_blockStep hhonest).2 (.inr ⟨?_, ?_, node, rest, hnode, rfl, rfl⟩)
    · rintro heq
      simp [heq, Kind.starters] at hstarter
    · rintro heq
      simp [heq, Kind.starters] at hstarter
  have hstops : Stops .rightBrace := ⟨⟨by decide, by decide⟩, by decide⟩
  exact (h.yields hstops hstop hmore hsplit hfinish hclose hdepth).1

theorem Sequence.readsBlock {opening closing : Token} {nodes : List Node}
    (h : Sequence limit ts nodes) (hopen : opening.kind = .leftBrace)
    (hclose : closing.kind = .rightBrace) :
    ReadsBlock limit (opening :: ts ++ [closing]) (.block opening nodes) where
  opens := ⟨opening, ts ++ [closing], rfl, hopen⟩
  yields := by
    intro depth feed rest hpass hdepth
    obtain ⟨hahead, rfl, hnext⟩ := (passes_cons (by simp)).1 hpass
    obtain ⟨hsplit, hfinish, -, rfl⟩ := passes_concat.1 hnext
    have hless := Nat.lt_trans (length_advance_lt hahead) hdepth
    exact yields_block.2 ⟨nodes, h.yields_blockStatements hsplit hfinish hclose hless, rfl⟩

theorem Sequence.yields_programStatements {nodes : List Node} (h : Sequence limit ts nodes)
    (hsplit : feed.ahead = ts ++ rest.ahead) (hfinish : rest.finish = feed.finish)
    (hend : rest.current.kind = .endOfInput) (hdepth : feed.ahead.length < depth) :
    Yields (programStatements (Parser.expression limit depth)) feed nodes rest := by
  have hhonest := honest_expression limit depth
  have hstop {feed : Feed} (hkind : feed.current.kind = .endOfInput) :
      Yields (programStep (Parser.expression limit depth)) feed .none feed :=
    (yields_programStep hhonest).2 (.inl ⟨hkind, rfl, rfl⟩)
  have hmore {feed rest : Feed} {node : Node}
      (hnode : Yields (statement (Parser.expression limit depth)) feed node rest) :
      Yields (programStep (Parser.expression limit depth)) feed (some [node]) rest.advance := by
    have hstarter := hnode.statementStarter
    refine (yields_programStep hhonest).2 (.inr ⟨?_, node, rest, hnode, rfl, rfl⟩)
    rintro heq
    simp [heq, Kind.starters] at hstarter
  have hstops : Stops .endOfInput := ⟨⟨by decide, by decide⟩, by decide⟩
  exact (h.yields hstops hstop hmore hsplit hfinish hend hdepth).1

end Parser

end MonkeyLanguage
