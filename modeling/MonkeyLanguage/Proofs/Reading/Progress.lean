-- SUMMARY: Reading comes to an end: it goes on behind a further token only.
import MonkeyLanguage.Proofs.Reading.Passes
import MonkeyLanguage.Proofs.Reading.Recovery

/-!
# Progress

The reader is given bounds, on the depth of expressions and on the rounds of its loops, and it has
no reply where one of them is met. None ever is. Here the reader of expressions is one without a
bound, and it satisfies the equation of a recursive function, as the loops do. What ends the
recursion are the tokens: a rule of expressions comes back to expressions only with fewer tokens
ahead, and a loop goes on only if its round has taken a token off the feed. At the end of the input
both stop.

That fewer tokens are ahead is built into the equation: there the rules are given a reader that has
no reply on any other feed. Nothing catches a missing reply, so no rule has used it there.
-/

namespace MonkeyLanguage

/-- The cursor moves on, over one token of the feed at a time, until it is at a place to stop. -/
structure Feed.Skips (stop : Feed → Prop) (skip : Feed → Feed) : Prop where
  stops : ∀ feed, stop feed → skip feed = feed
  goes : ∀ feed, ¬ stop feed →
    skip feed = skip feed.advance ∧ feed.advance.ahead.length < feed.ahead.length

namespace Parser

open Feed

/-- An expression, however deep it nests. -/
def wholeExpression (limit : Numeral.DigitLimit) : ExpressionParser := fun power feed =>
  expression limit (feed.ahead.length + 1) power feed

/-- The same readers of expressions, which have no reply unless fewer tokens are ahead than at the
start. -/
def onlyBehind (start : Feed) (expression : ExpressionParser) : ExpressionParser :=
  fun power feed => if feed.ahead.length < start.ahead.length then expression power feed else none

/-- An operand and what extends it, with the expressions in them read in a given way. -/
def extendedOperand (limit : Numeral.DigitLimit) (expression : ExpressionParser) (power : Nat) :
    Parser Node := do
  let left ← operand limit expression
  extend expression power left

/-- An expression is read to an end, as an operand and what extends it. The expressions in these are
read behind a further token. -/
structure ReadsOn (limit : Numeral.DigitLimit) (power : Nat) (feed : Feed) : Prop where
  ends : ∃ reply, wholeExpression limit power feed = some reply ∧ reply.rest.Behind feed
  recurs : wholeExpression limit power feed =
    extendedOperand limit (wholeExpression limit) power feed
  progress : wholeExpression limit power feed =
    extendedOperand limit (onlyBehind feed (wholeExpression limit)) power feed
  stops : feed.current.kind = .endOfInput →
    wholeExpression limit power feed = some ⟨none, [.noOperand .endOfInput], feed⟩

/-- An operand is extended to an end, and each round of the loop takes a token off the feed. -/
structure ExtendsOn (limit : Numeral.DigitLimit) (power : Nat) (left : Node) (feed : Feed) :
    Prop where
  ends : ∃ reply, extend (wholeExpression limit) power left feed = some reply
  loop : extend (wholeExpression limit) power left feed =
    (do
      if power < (← peek).kind.bindingPower then
        advance
        let longer ← extension (wholeExpression limit) left
        extend (wholeExpression limit) power longer
      else
        pure left : Parser Node) feed
  progress : power < feed.peek.kind.bindingPower →
    ∃ reply, extension (wholeExpression limit) left feed.advance = some reply ∧
      reply.rest.ahead.length < feed.ahead.length
  stops : feed.peek.kind = .endOfInput →
    extend (wholeExpression limit) power left feed = some ⟨some left, [], feed⟩

/-- A step is repeated to an end. Each round after which there is another one takes a token off the
feed. None is behind a round where the end of the input is in front. -/
structure Loops {α : Type} (front : Feed → Token) (step : Parser (Option (List α))) : Prop where
  ends : ∀ feed, ∃ reply, gather step feed = some reply
  loop : gather step = do
    match ← step with
    | none => pure []
    | some items =>
      let others ← gather step
      pure (items ++ others)
  progress : ∀ feed, ∃ reply, step feed = some reply ∧
    ∀ items, reply.value? = some (some items) → reply.rest.ahead.length < feed.ahead.length
  stops : ∀ feed, (front feed).kind = .endOfInput → ∀ reply, step feed = some reply →
    ∀ items, reply.value? ≠ some (some items)

variable {limit : Numeral.DigitLimit}

/-! ## Expressions -/

theorem wholeExpression_delivers (limit : Numeral.DigitLimit) (T : Token → Prop) (bound : Nat) :
    DeliversExpressions limit T bound (wholeExpression limit) := fun power hpower feed hfeed =>
  expression_delivers limit T (feed.ahead.length + 1) power hpower feed
    ⟨Nat.lt_succ_self _, hfeed.2⟩

/-- Where a reader of bounded depth has a reply, the one without a bound has that reply too. -/
theorem wholeExpression_eq {depth power : Nat} (hpower : BindingPower.lowest ≤ power) {feed : Feed}
    {reply : Reply Node} (h : expression limit depth power feed = some reply) :
    wholeExpression limit power feed = some reply := by
  rcases Nat.le_total depth (feed.ahead.length + 1) with hle | hle
  · exact expression_mono hle hpower h
  · obtain ⟨whole, hwhole, -⟩ := wholeExpression_delivers limit (fun _ => True) _ power hpower feed
      ⟨Nat.lt_succ_self _, fun _ _ => trivial⟩
    have hsame := expression_mono hle hpower hwhole
    rw [h] at hsame
    rw [hwhole, hsame]

theorem onlyBehind_delivers (limit : Numeral.DigitLimit) (T : Token → Prop) (start : Feed) :
    DeliversExpressions limit T start.ahead.length (onlyBehind start (wholeExpression limit)) := by
  intro power hpower feed hfeed
  rw [onlyBehind, if_pos hfeed.1]
  exact wholeExpression_delivers limit T _ power hpower feed hfeed

/-- What reads the expressions behind a further token in the same way reads all in the same way. -/
theorem extendedOperand_of_onlyBehind {expression : ExpressionParser} {feed : Feed}
    (h : ∀ power, BindingPower.lowest ≤ power → ∀ rest reply,
      rest.ahead.length < feed.ahead.length → wholeExpression limit power rest = some reply →
      expression power rest = some reply) {power : Nat} (hpower : BindingPower.lowest ≤ power) :
    extendedOperand limit expression power feed =
      extendedOperand limit (onlyBehind feed (wholeExpression limit)) power feed := by
  obtain ⟨reply, hreply, -⟩ := extendedOperand_delivers
    (onlyBehind_delivers limit (fun _ => True) feed) hpower feed
    ⟨Nat.lt_succ_self _, fun _ _ => trivial⟩
  have hexpression : ∀ power, BindingPower.lowest ≤ power → Keeps .same Tandem.same.At
      (onlyBehind feed (wholeExpression limit) power) (expression power)
      fun _ => Tandem.same.Before := by
    refine fun power hpower => keeps_same_iff.2 fun rest reply hrest => ?_
    rw [onlyBehind] at hrest
    split at hrest
    · next hless => exact h power hpower rest reply hless hrest
    · cases hrest
  have hoperand : Keeps .same Tandem.same.At (operand limit _) (operand limit _)
      fun _ => Tandem.same.Before := keeps_operand hexpression
  have hsame := hoperand.bind fun left => keeps_extend hexpression hpower left
  exact (keeps_same_iff.1 hsame feed reply hreply).trans hreply.symm

theorem readsOn {power : Nat} (hpower : BindingPower.lowest ≤ power) (feed : Feed) :
    ReadsOn limit power feed := by
  have hprogress : wholeExpression limit power feed =
      extendedOperand limit (onlyBehind feed (wholeExpression limit)) power feed :=
    extendedOperand_of_onlyBehind (fun _ hpower _ _ hless h => expression_mono hless hpower h)
      hpower
  refine ⟨?_, ?_, hprogress, fun hend => ?_⟩
  · obtain ⟨reply, hreply, hbehind, -⟩ := wholeExpression_delivers limit (fun _ => True) _ power
      hpower feed ⟨Nat.lt_succ_self _, fun _ _ => trivial⟩
    exact ⟨reply, hreply, hbehind⟩
  · rw [hprogress]
    exact (extendedOperand_of_onlyBehind (fun _ _ _ _ _ h => h) hpower).symm
  · simp [wholeExpression, expression, operand, Bind.bind, andThen, current, hend, fail,
      Reply.after]

/-! ## Extensions -/

section

variable {expression : ExpressionParser} {power : Nat} {feed : Feed}

theorem extend_of_not_lt (h : ¬ power < feed.peek.kind.bindingPower) (left : Node) :
    extend expression power left feed = some ⟨some left, [], feed⟩ := by
  simp [extend, extendUpTo, Bind.bind, andThen, peek, h, pure, succeed, Reply.after]

theorem extend_of_lt (h : power < feed.peek.kind.bindingPower) (left : Node) :
    extend expression power left feed =
      (extension expression left >>= extendUpTo expression power feed.ahead.length)
        feed.advance := by
  have hafter : (Reply.after [] : Reply Node → Reply Node) = id := rfl
  simp [extend, extendUpTo, Bind.bind, andThen, peek, h, advance, move, hafter]

end

/-- What extends an operand starts with a token of the feed. -/
theorem extends_advance {power : Nat} (hpower : BindingPower.lowest ≤ power) {feed : Feed}
    (h : power < feed.peek.kind.bindingPower) :
    Extends (fun _ => True) feed.ahead.length feed.advance := by
  have hlowest : BindingPower.lowest < feed.advance.current.kind.bindingPower :=
    Nat.lt_of_le_of_lt hpower h
  have hahead := ahead_ne_nil (current_ne_endOfInput_of_power hlowest)
  exact ⟨⟨Feed.length_advance_lt (ahead_ne_nil_of_advance hahead), fun _ _ => trivial⟩, hlowest⟩

theorem extendsOn {power : Nat} (hpower : BindingPower.lowest ≤ power) {left : Node}
    (hleft : Made limit (fun _ => True) (.expression left)) (feed : Feed) :
    ExtendsOn limit power left feed := by
  have hexpression := wholeExpression_delivers limit (fun _ => True)
  have hends {longer : Node} (hlonger : Made limit (fun _ => True) (.expression longer))
      (rest : Feed) : ∃ reply, extend (wholeExpression limit) power longer rest = some reply := by
    obtain ⟨reply, hreply, -⟩ := extend_delivers (hexpression _) hpower hlonger rest
      ⟨Nat.lt_succ_self _, fun _ _ => trivial⟩
    exact ⟨reply, hreply⟩
  refine ⟨hends hleft feed, ?_, fun hbinds => ?_, fun hend => ?_⟩
  · by_cases hbinds : power < feed.peek.kind.bindingPower
    · obtain ⟨⟨value?, errors, rest⟩, hreply, hbehind, hvalue⟩ :=
        extension_delivers (hexpression _) hleft _ (extends_advance hpower hbinds)
      have hless : rest.ahead.length < feed.ahead.length :=
        Nat.lt_of_le_of_lt hbehind.suffix.length_le (extends_advance hpower hbinds).1.1
      rw [extend_of_lt hbinds]
      cases value? with
      | none => simp [Bind.bind, andThen, peek, hbinds, advance, move, hreply, Reply.after]
      | some longer =>
          obtain ⟨last, hlast⟩ := hends (hvalue longer rfl) rest
          have hmore := extendUpTo_mono hpower hless hlast
          simp [Bind.bind, andThen, peek, hbinds, advance, move, hreply, hlast, hmore, Reply.after]
    · rw [extend_of_not_lt hbinds]
      simp [Bind.bind, andThen, peek, hbinds, pure, succeed, Reply.after]
  · obtain ⟨reply, hreply, hbehind, -⟩ :=
      extension_delivers (hexpression _) hleft _ (extends_advance hpower hbinds)
    exact ⟨reply, hreply,
      Nat.lt_of_le_of_lt hbehind.suffix.length_le (extends_advance hpower hbinds).1.1⟩
  · apply extend_of_not_lt
    rw [hend]
    exact Nat.not_lt.2 hpower

/-! ## Loops -/

variable {α : Type}

theorem loops_of_delivers {front : Feed → Token} {step : Parser (Option (List α))} {G : α → Prop}
    (h : ∀ room, Delivers (Within (fun _ => True) (room + 1)) step fun items? feed =>
      ∀ items, items? = some items → Within (fun _ => True) room feed ∧ ∀ a ∈ items, G a)
    (hstops : ∀ feed, (front feed).kind = .endOfInput → ∀ reply, step feed = some reply →
      ∀ items, reply.value? ≠ some (some items)) : Loops front step := by
  have hends (feed : Feed) : ∃ reply, gather step feed = some reply := by
    obtain ⟨reply, hreply, -⟩ := delivers_gather (fun room _ => h room) feed
      ⟨Nat.lt_succ_self _, fun _ _ => trivial⟩
    exact ⟨reply, hreply⟩
  have hprogress (feed : Feed) : ∃ reply, step feed = some reply ∧
      ∀ items, reply.value? = some (some items) → reply.rest.ahead.length < feed.ahead.length := by
    obtain ⟨reply, hreply, -, hvalue⟩ := h feed.ahead.length feed
      ⟨Nat.lt_succ_self _, fun _ _ => trivial⟩
    exact ⟨reply, hreply, fun items hitems => (hvalue _ hitems items rfl).1.1⟩
  refine ⟨hends, funext fun feed => ?_, hprogress, hstops⟩
  obtain ⟨⟨value?, errors, rest⟩, hreply, hless⟩ := hprogress feed
  change (step >>= _) feed = (step >>= _) feed
  simp only [Bind.bind, andThen, hreply]
  match value? with
  | none => rfl
  | some none => rfl
  | some (some items) =>
      obtain ⟨last, hlast⟩ := hends rest
      have hmore := gatherUpTo_mono (hless items rfl) hlast
      change Option.map _ (andThen _ _ rest) = Option.map _ (andThen _ _ rest)
      rw [andThen, andThen, hmore, hlast]

theorem loops_programStep (limit : Numeral.DigitLimit) :
    Loops Feed.current (programStep (wholeExpression limit)) := by
  apply loops_of_delivers fun room =>
    programStep_delivers (wholeExpression_delivers limit _ _) (Nat.lt_succ_self room)
  intro feed hend reply hreply items
  obtain rfl : (⟨some none, [], feed⟩ : Reply _) = reply := by
    simpa [programStep, Bind.bind, andThen, current, hend, pure, succeed, Reply.after] using hreply
  simp

theorem loops_blockStep (limit : Numeral.DigitLimit) :
    Loops Feed.current (blockStep (wholeExpression limit)) := by
  apply loops_of_delivers fun room =>
    blockStep_delivers (wholeExpression_delivers limit _ _) (Nat.lt_succ_self room)
  intro feed hend reply hreply items
  obtain rfl : (⟨some none, [.expected .rightBrace .endOfInput], feed⟩ : Reply _) = reply := by
    simpa [blockStep, Bind.bind, andThen, current, hend, report, pure, succeed, Reply.after]
      using hreply
  simp

theorem loops_listStep (closing : Kind) {item : Parser α} {G : α → Prop}
    (hitem : ∀ bound, Delivers (Within (fun _ => True) bound) item fun a _ => G a) :
    Loops Feed.peek (listStep closing item) := by
  apply loops_of_delivers fun room =>
    delivers_listStep closing (hitem (room + 1)) (Nat.lt_succ_self room)
  intro feed hend reply hreply items hitems
  have hcomma : feed.peek.kind ≠ .comma := by simp [hend]
  by_cases hclosing : feed.peek.kind = closing
  · subst hclosing
    obtain rfl : (⟨some none, [], feed.advance⟩ : Reply _) = reply := by
      simpa [listStep, expect, Bind.bind, andThen, peek, hcomma, advance, move, pure, succeed,
        Reply.after] using hreply
    cases hitems
  · obtain rfl : (⟨none, [.expected closing feed.peek.kind], feed⟩ : Reply _) = reply := by
      simpa [listStep, expect, Bind.bind, andThen, peek, hcomma, hclosing, fail, pure, succeed,
        Reply.after] using hreply
    cases hitems

end Parser

/-! ## The cursor -/

namespace Feed

theorem skips_skipTo (stops : List Kind) :
    Skips (fun feed => feed.current.kind = .endOfInput ∨ feed.current.kind ∈ stops)
      (skipTo stops) where
  stops := by
    rintro ⟨_ | ⟨token, rest⟩, finish⟩ hstop
    · rfl
    · rw [skipTo, List.dropWhile_cons_of_neg]
      rcases hstop with hend | hmem
      · simp [show token.kind = .endOfInput from hend]
      · simp [show token.kind ∈ stops from hmem]
  goes := by
    rintro ⟨_ | ⟨token, rest⟩, finish⟩ hgo
    · exact absurd (.inl rfl) hgo
    · obtain ⟨hend, hmem⟩ : token.kind ≠ .endOfInput ∧ token.kind ∉ stops := not_or.1 hgo
      refine ⟨?_, Nat.lt_succ_self _⟩
      rw [skipTo, List.dropWhile_cons_of_pos (by simp [hend, hmem])]
      rfl

theorem skips_skipSemicolons :
    Skips (fun feed => feed.peek.kind ≠ .semicolon) skipSemicolons where
  stops := by
    rintro ⟨_ | ⟨token, _ | ⟨next, rest⟩⟩, finish⟩ hstop
    · rfl
    · rfl
    · simp [skipSemicolons, dropSemicolons, show next.kind ≠ .semicolon from hstop]
  goes := by
    rintro ⟨_ | ⟨token, _ | ⟨next, rest⟩⟩, finish⟩ hgo
    · exact absurd Kind.noConfusion hgo
    · exact absurd Kind.noConfusion hgo
    · have hnext : next.kind = .semicolon := not_not.1 hgo
      refine ⟨?_, Nat.lt_succ_self _⟩
      rw [skipSemicolons, dropSemicolons, if_pos hnext]
      rfl

end Feed

/-- Each rule and each loop of the reader makes progress towards the end of the feed and comes to an
end: expressions inside each other, operands and what extends them, statements of programs and of
blocks, lists of values, of parameters and of pairs, and moving on over several tokens. -/
structure Parser.Progress (limit : Numeral.DigitLimit) : Prop where
  expression : ∀ power, BindingPower.lowest ≤ power → ∀ feed, ReadsOn limit power feed
  extension : ∀ power, BindingPower.lowest ≤ power → ∀ left,
    Made limit (fun _ => True) (.expression left) → ∀ feed, ExtendsOn limit power left feed
  program : Loops Feed.current (programStep (wholeExpression limit))
  block : Loops Feed.current (blockStep (wholeExpression limit))
  values : ∀ closing, Loops Feed.peek
    (listStep closing (wholeExpression limit BindingPower.lowest))
  parameters : ∀ closing, Loops Feed.peek (listStep closing parameter)
  pairs : ∀ closing, Loops Feed.peek (listStep closing (pair (wholeExpression limit)))
  skipTo : ∀ stops, Feed.Skips
    (fun feed => feed.current.kind = .endOfInput ∨ feed.current.kind ∈ stops) (Feed.skipTo stops)
  skipSemicolons : Feed.Skips (fun feed => feed.peek.kind ≠ .semicolon) Feed.skipSemicolons

/-- Reading a list of tokens comes to an end, whatever the tokens are: it is done by rules and loops
that all make progress, none of them bounded. -/
theorem Parse.ofTokens_ends (limit : Numeral.DigitLimit) :
    Parser.Progress limit ∧ ∀ tokens : List Token, ∃ statements errors rest,
      Parser.programStatements (Parser.wholeExpression limit) (.ofTokens tokens) =
        some ⟨some statements, errors, rest⟩ ∧
      Parse.ofTokens tokens limit =
        ⟨.program (Feed.ofTokens tokens).current statements, errors⟩ := by
  constructor
  · have hexpression := Parser.wholeExpression_delivers limit fun _ => True
    have hparameter (bound : Nat) : Parser.Delivers (Feed.Within (fun _ => True) bound)
        Parser.parameter fun node _ => Made limit (fun _ => True) (.parameter node) :=
      Parser.parameter_delivers
    exact {
      expression := fun _ hpower => Parser.readsOn hpower
      extension := fun _ hpower _ hleft => Parser.extendsOn hpower hleft
      program := Parser.loops_programStep limit
      block := Parser.loops_blockStep limit
      values := fun closing => Parser.loops_listStep closing fun bound =>
        hexpression bound _ (Nat.le_refl _)
      parameters := fun closing => Parser.loops_listStep closing hparameter
      pairs := fun closing => Parser.loops_listStep closing fun bound =>
        Parser.pair_delivers (hexpression bound)
      skipTo := Feed.skips_skipTo
      skipSemicolons := Feed.skips_skipSemicolons }
  · intro tokens
    obtain ⟨statements, errors, rest, hreply, hparse⟩ := exists_statements limit (.ofTokens tokens)
    have hexpression : ∀ power, BindingPower.lowest ≤ power → Parser.Keeps .same Tandem.same.At
        (Parser.expression limit ((Feed.ofTokens tokens).ahead.length + 1) power)
        (Parser.wholeExpression limit power) fun _ => Tandem.same.Before :=
      fun _ hpower => Parser.keeps_same_iff.2 fun _ _ => Parser.wholeExpression_eq hpower
    have hsteps := (Parser.keeps_programStep hexpression Feed.onward_eq).gather fun h => h
    exact ⟨statements, errors, rest, Parser.keeps_same_iff.1 hsteps _ _ hreply, hparse⟩

end MonkeyLanguage
