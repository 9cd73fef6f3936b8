-- SUMMARY: Parsers fail only with an error.
import MonkeyLanguage.Proofs.Reading.Yield

/-!
# Failures

A parser is honest if it records an error whenever it fails. All rules are, so a reading
without errors is one in which nothing failed, and no statement was skipped.
-/

namespace MonkeyLanguage.Parser

variable {α β : Type}

/-- The parser never fails without an error. -/
def Honest (parser : Parser α) : Prop :=
  ∀ feed reply, parser feed = some reply → reply.value? = none → reply.errors ≠ []

/-! ## Ways of building parsers -/

theorem honest_pure (a : α) : Honest (pure a : Parser α) := by
  rintro feed reply h
  obtain rfl : _ = reply := by simpa [Pure.pure, succeed] using h
  simp

theorem honest_fail (error : ParseError) : Honest (fail error : Parser α) := by
  rintro feed reply h
  obtain rfl : _ = reply := by simpa [fail] using h
  simp

theorem honest_report (error : ParseError) : Honest (report error) := by
  rintro feed reply h
  obtain rfl : _ = reply := by simpa [report] using h
  simp

theorem honest_exhausted : Honest (exhausted : Parser α) := by
  rintro feed reply h
  simp [exhausted] at h

theorem honest_current : Honest current := by
  rintro feed reply h
  obtain rfl : _ = reply := by simpa [current] using h
  simp

theorem honest_peek : Honest peek := by
  rintro feed reply h
  obtain rfl : _ = reply := by simpa [peek] using h
  simp

theorem honest_move (step : Feed → Feed) : Honest (move step) := by
  rintro feed reply h
  obtain rfl : _ = reply := by simpa [move] using h
  simp

theorem honest_advance : Honest advance :=
  honest_move _

theorem Honest.bind {parser : Parser α} {next : α → Parser β} (h : Honest parser)
    (hnext : ∀ a, Honest (next a)) : Honest (parser >>= next) := by
  intro feed reply hreply hnone
  simp only [Bind.bind, andThen] at hreply
  rcases hfirst : parser feed with _ | ⟨_ | a, errors, rest⟩
  · simp [hfirst] at hreply
  · obtain rfl : _ = reply := by simpa [hfirst] using hreply
    exact h feed _ hfirst rfl
  · obtain ⟨last, hlast, rfl⟩ : ∃ last, next a rest = some last ∧ last.after errors = reply := by
      simpa [hfirst] using hreply
    simpa [Reply.after] using fun _ => hnext a rest last hlast hnone

theorem honest_ite {c : Prop} [Decidable c] {parser other : Parser α} (h : Honest parser)
    (hother : Honest other) : Honest (if c then parser else other) := by
  split
  · exact h
  · exact hother

theorem honest_expect (wanted : Kind) : Honest (expect wanted) :=
  honest_peek.bind fun _ => honest_ite honest_advance (honest_fail _)

/-- What is caught is no failure. -/
theorem honest_attempt (parser : Parser α) : Honest (attempt parser) := by
  intro feed reply hreply hnone
  obtain ⟨last, -, rfl⟩ := Option.map_eq_some_iff.1 hreply
  simp at hnone

theorem Honest.gatherUpTo {step : Parser (Option (List α))} (h : Honest step) (bound : Nat) :
    Honest (gatherUpTo step bound) := by
  induction bound with
  | zero => exact honest_exhausted
  | succ bound ih =>
      refine h.bind fun items? => ?_
      cases items? with
      | none => exact honest_pure _
      | some items => exact ih.bind fun _ => honest_pure _

theorem Honest.gather {step : Parser (Option (List α))} (h : Honest step) : Honest (gather step) :=
  fun feed => h.gatherUpTo _ feed

theorem Honest.listUpTo {item : Parser α} (h : Honest item) (closing : Kind) :
    Honest (listUpTo closing item) := by
  have hstep : Honest (listStep closing item) :=
    honest_peek.bind fun _ => honest_ite
      (honest_advance.bind fun _ => honest_advance.bind fun _ => h.bind fun _ => honest_pure _)
      ((honest_expect closing).bind fun _ => honest_pure _)
  exact honest_peek.bind fun _ => honest_ite
    (honest_advance.bind fun _ => honest_pure _)
    (honest_advance.bind fun _ => h.bind fun _ => hstep.gather.bind fun _ => honest_pure _)

theorem not_yields_attempt_none {parser : Parser α} (h : Honest parser) {feed rest : Feed} :
    ¬ Yields (attempt parser) feed none rest := by
  intro hyields
  obtain ⟨⟨value?, errors, last⟩, hreply, heq⟩ := Option.map_eq_some_iff.1 hyields
  simp only [Reply.mk.injEq, Option.some.injEq] at heq
  exact h feed _ hreply heq.1 heq.2.1

/-! ## Rules -/

section

variable {expression : ExpressionParser} (he : ∀ power, Honest (expression power))
include he

theorem honest_statement : Honest (statement expression) := by
  apply honest_current.bind
  intro token
  split
  · exact honest_current.bind fun _ => (honest_expect _).bind fun _ => honest_current.bind fun _ =>
      (honest_expect _).bind fun _ => honest_advance.bind fun _ => (he _).bind fun _ =>
        (honest_move _).bind fun _ => honest_pure _
  · exact honest_current.bind fun _ => honest_advance.bind fun _ => (he _).bind fun _ =>
      (honest_move _).bind fun _ => honest_pure _
  · exact honest_current.bind fun _ => (he _).bind fun _ =>
      (honest_move _).bind fun _ => honest_pure _

omit he in
theorem honest_blockStep : Honest (blockStep expression) := by
  apply honest_current.bind
  intro token
  split
  · exact honest_pure _
  · exact (honest_report _).bind fun _ => honest_pure _
  · refine (honest_attempt _).bind fun node? => ?_
    cases node? with
    | some node => exact honest_advance.bind fun _ => honest_pure _
    | none =>
        exact (honest_move _).bind fun _ => honest_current.bind fun _ =>
          honest_ite (honest_pure _) (honest_advance.bind fun _ => honest_pure _)

omit he in
theorem honest_block : Honest (block expression) :=
  honest_current.bind fun _ => honest_advance.bind fun _ => honest_blockStep.gather.bind fun _ =>
    honest_pure _

omit he in
theorem honest_programStatements : Honest (programStatements expression) := by
  refine Honest.gather (honest_current.bind fun token => honest_ite (honest_pure _) ?_)
  refine (honest_attempt _).bind fun node? => ?_
  cases node? with
  | some node => exact honest_advance.bind fun _ => honest_pure _
  | none => exact (honest_move _).bind fun _ => honest_advance.bind fun _ => honest_pure _

theorem honest_conditional : Honest (conditional expression) := by
  have halternative : Honest (alternative expression) :=
    honest_peek.bind fun _ => honest_ite
      (honest_advance.bind fun _ => (honest_expect _).bind fun _ => honest_block) (honest_pure _)
  exact honest_current.bind fun _ => (honest_expect _).bind fun _ => honest_advance.bind fun _ =>
    (he _).bind fun _ => (honest_expect _).bind fun _ => (honest_expect _).bind fun _ =>
      honest_block.bind fun _ => halternative.bind fun _ => honest_pure _

omit he in
theorem honest_function : Honest (function expression) := by
  have hparameter : Honest parameter :=
    honest_current.bind fun _ => honest_ite (honest_pure _) (honest_fail _)
  exact honest_current.bind fun _ => (honest_expect _).bind fun _ =>
    (hparameter.listUpTo _).bind fun _ => (honest_expect _).bind fun _ => honest_block.bind fun _ =>
      honest_pure _

theorem honest_hash : Honest (hash expression) := by
  have hpair : Honest (pair expression) :=
    (he _).bind fun _ => (honest_expect _).bind fun _ => honest_advance.bind fun _ =>
      (he _).bind fun _ => honest_pure _
  exact honest_current.bind fun _ => (hpair.listUpTo _).bind fun _ => honest_pure _

omit he in
theorem honest_integer (limit : Numeral.DigitLimit) : Honest (integer limit) := by
  apply honest_current.bind
  intro token
  split
  · exact honest_ite (honest_pure _) (honest_fail _)
  · exact honest_fail _

theorem honest_operand (limit : Numeral.DigitLimit) : Honest (operand limit expression) := by
  apply honest_current.bind
  intro token
  have hprefixed : Honest (prefixed expression) :=
    honest_current.bind fun _ => honest_advance.bind fun _ => (he _).bind fun _ => honest_pure _
  split
  · exact honest_pure _
  · exact honest_integer limit
  · exact honest_pure _
  · exact honest_pure _
  · exact honest_pure _
  · exact hprefixed
  · exact hprefixed
  · exact honest_advance.bind fun _ => (he _).bind fun _ => (honest_expect _).bind fun _ =>
      honest_pure _
  · exact honest_conditional he
  · exact honest_function
  · exact honest_current.bind fun _ => ((he _).listUpTo _).bind fun _ => honest_pure _
  · exact honest_hash he
  · exact honest_fail _

theorem honest_extension (left : Node) : Honest (extension expression left) := by
  apply honest_current.bind
  intro token
  split
  · exact honest_current.bind fun _ => ((he _).listUpTo _).bind fun _ => honest_pure _
  · exact honest_current.bind fun _ => honest_advance.bind fun _ => (he _).bind fun _ =>
      (honest_expect _).bind fun _ => honest_pure _
  · exact honest_current.bind fun _ => (honest_expect _).bind fun _ => honest_current.bind fun _ =>
      honest_pure _
  · exact honest_current.bind fun _ => honest_advance.bind fun _ => (he _).bind fun _ =>
      honest_pure _

theorem honest_extendUpTo (power bound : Nat) (left : Node) :
    Honest (extendUpTo expression power bound left) := by
  induction bound generalizing left with
  | zero => exact honest_exhausted
  | succ bound ih =>
      exact honest_peek.bind fun _ => honest_ite
        (honest_advance.bind fun _ => (honest_extension he left).bind fun longer => ih longer)
        (honest_pure left)

end

theorem honest_expression (limit : Numeral.DigitLimit) (depth power : Nat) :
    Honest (Parser.expression limit depth power) := by
  induction depth generalizing power with
  | zero => exact honest_exhausted
  | succ depth ih =>
      exact (honest_operand ih limit).bind fun left feed =>
        honest_extendUpTo ih power (feed.ahead.length + 1) left feed

/-! ## Steps without errors -/

section

variable {expression : ExpressionParser} (he : ∀ power, Honest (expression power))
include he

theorem yields_attempt_statement {feed rest : Feed} {node? : Option Node} :
    Yields (attempt (statement expression)) feed node? rest ↔
      ∃ node, node? = some node ∧ Yields (statement expression) feed node rest := by
  cases node? with
  | none => simp [not_yields_attempt_none (honest_statement he)]
  | some node => simp

theorem yields_blockStep {feed rest : Feed} {nodes? : Option (List Node)} :
    Yields (blockStep expression) feed nodes? rest ↔
      (feed.current.kind = .rightBrace ∧ nodes? = none ∧ rest = feed) ∨
        (feed.current.kind ≠ .rightBrace ∧ feed.current.kind ≠ .endOfInput ∧
          ∃ node mid, Yields (statement expression) feed node mid ∧ nodes? = some [node] ∧
            rest = mid.advance) := by
  simp only [blockStep, yields_bind, yields_current]
  constructor
  · rintro ⟨_, mid, ⟨rfl, rfl⟩, h⟩
    split at h
    · exact .inl ⟨‹_›, yields_pure.1 h⟩
    · simp at h
    · next hbrace hend =>
        simp only [yields_bind, yields_attempt_statement he] at h
        obtain ⟨_, after, ⟨node, rfl, hnode⟩, h⟩ := h
        simp only [yields_bind, yields_advance, yields_pure] at h
        obtain ⟨_, _, rfl, rfl, rfl⟩ := h
        exact .inr ⟨hbrace, hend, node, after, hnode, rfl, rfl⟩
  · rintro (⟨hkind, rfl, rfl⟩ | ⟨hbrace, hend, node, mid, hnode, rfl, rfl⟩)
    · exact ⟨_, _, ⟨rfl, rfl⟩, by simp [hkind]⟩
    · refine ⟨_, _, ⟨rfl, rfl⟩, ?_⟩
      split
      · exact absurd ‹_› hbrace
      · exact absurd ‹_› hend
      · simp only [yields_bind, yields_attempt_statement he]
        exact ⟨some node, mid, ⟨node, rfl, hnode⟩, by simp⟩

theorem yields_programStep {feed rest : Feed} {nodes? : Option (List Node)} :
    Yields (programStep expression) feed nodes? rest ↔
      (feed.current.kind = .endOfInput ∧ nodes? = none ∧ rest = feed) ∨
        (feed.current.kind ≠ .endOfInput ∧
          ∃ node mid, Yields (statement expression) feed node mid ∧ nodes? = some [node] ∧
            rest = mid.advance) := by
  simp only [programStep, yields_bind, yields_current, yields_ite, yields_pure,
    yields_attempt_statement he]
  constructor
  · rintro ⟨_, mid, ⟨rfl, rfl⟩, h⟩
    split at h
    · exact .inl ⟨‹_›, h⟩
    · next hend =>
        obtain ⟨_, after, ⟨node, rfl, hnode⟩, h⟩ := h
        simp only [yields_bind, yields_advance, yields_pure] at h
        obtain ⟨_, _, rfl, rfl, rfl⟩ := h
        exact .inr ⟨hend, node, after, hnode, rfl, rfl⟩
  · rintro (⟨hkind, rfl, rfl⟩ | ⟨hend, node, mid, hnode, rfl, rfl⟩)
    · exact ⟨_, _, ⟨rfl, rfl⟩, by simp [hkind]⟩
    · refine ⟨_, _, ⟨rfl, rfl⟩, ?_⟩
      rw [if_neg hend]
      exact ⟨some node, mid, ⟨node, rfl, hnode⟩, by simp⟩

end

end MonkeyLanguage.Parser
