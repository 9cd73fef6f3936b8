-- SUMMARY: Parsers do the same on feeds that are the same as far as they look.
import Mathlib.Tactic.Common
import MonkeyLanguage.Proofs.Reading.Made

/-!
# Feeds read in tandem

Two feeds that differ somewhere ahead are read in the same way for as long as nothing looks there.
A tandem is a pair of relations between feeds that says how far that is: both fronts are at the
same token, or so are the tokens behind them too. A parser that keeps to it makes of the second feed
what it makes of the first one, whether it succeeds or fails, and if bounds are larger there, then
that changes nothing. Of end tokens only the kind is looked at, so they may differ in all else.

No rule goes past a semicolon, blocks apart. So a tandem may end at a semicolon, if no block starts
before it. And any feed is in tandem with itself, so expressions may always nest deeper than they
do.
-/

namespace MonkeyLanguage

/-- Feeds at the same place go on in the same way, behind semicolons and after failures too. -/
def Feed.Onward (At Before : Feed → Feed → Prop) : Prop :=
  ∀ {feed feed' : Feed}, At feed feed' →
    Before feed feed' ∧ ∀ stops, At (feed.skipTo stops) (feed'.skipTo stops)

/-- Two feeds that are read in the same way. -/
structure Tandem where
  /-- Both fronts are at the same token, or at end tokens. -/
  At : Feed → Feed → Prop
  /-- So they are, and so are the places behind them. -/
  Before : Feed → Feed → Prop
  at_of_before {feed feed' : Feed} : Before feed feed' → At feed feed'
  current_kind {feed feed' : Feed} : At feed feed' → feed'.current.kind = feed.current.kind
  current_eq {feed feed' : Feed} :
    At feed feed' → feed.current.kind ≠ .endOfInput → feed'.current = feed.current
  peek_kind {feed feed' : Feed} : Before feed feed' → feed'.peek.kind = feed.peek.kind
  at_advance {feed feed' : Feed} : Before feed feed' → At feed.advance feed'.advance
  at_skipSemicolons {feed feed' : Feed} :
    Before feed feed' → At feed.skipSemicolons feed'.skipSemicolons
  /-- The feeds go on in the same way behind all tokens but semicolons. -/
  before_of_kind {feed feed' : Feed} :
    At feed feed' → feed.current.kind ≠ .semicolon → Before feed feed'
  length_le {feed feed' : Feed} : At feed feed' → feed.ahead.length ≤ feed'.ahead.length
  /-- Blocks go on behind a semicolon, so there are none unless the feeds do so in the same way. -/
  no_block_or_onward :
    (∀ {feed feed' : Feed}, At feed feed' → feed.current.kind ≠ .leftBrace) ∨
      Feed.Onward At Before

theorem Feed.onward_eq : Feed.Onward Eq Eq := fun h => ⟨h, fun _ => h ▸ rfl⟩

namespace Tandem

/-- Each feed with itself. -/
def same : Tandem where
  At feed feed' := feed = feed'
  Before feed feed' := feed = feed'
  at_of_before h := h
  current_kind h := h ▸ rfl
  current_eq h _ := h ▸ rfl
  peek_kind h := h ▸ rfl
  at_advance h := h ▸ rfl
  at_skipSemicolons h := h ▸ rfl
  before_of_kind h _ := h
  length_le h := h ▸ Nat.le_refl _
  no_block_or_onward := .inr Feed.onward_eq

/-- Both fronts are at the same token, and it is no end token. -/
structure Inside (tandem : Tandem) (feed feed' : Feed) : Prop where
  before : tandem.Before feed feed'
  current : feed.current.kind ≠ .endOfInput

end Tandem

namespace Parser

variable {α β : Type} {tandem : Tandem} {P S : Feed → Feed → Prop}
  {Q Q' : α → Feed → Feed → Prop} {R : β → Feed → Feed → Prop}

/-- On feeds that satisfy `P` the second parser does what the first one does if that one has a
reply. What remains is still in tandem, and satisfies `Q` if there is a value. -/
def Keeps (tandem : Tandem) (P : Feed → Feed → Prop) (parser parser' : Parser α)
    (Q : α → Feed → Feed → Prop) : Prop :=
  ∀ feed feed', P feed feed' → ∀ reply, parser feed = some reply →
    ∃ rest', parser' feed' = some { reply with rest := rest' } ∧ tandem.At reply.rest rest' ∧
      ∀ a, reply.value? = some a → Q a reply.rest rest'

theorem Keeps.weaken {parser parser' : Parser α} (h : Keeps tandem P parser parser' Q)
    (hP : ∀ feed feed', S feed feed' → P feed feed')
    (hQ : ∀ a feed feed', Q a feed feed' → Q' a feed feed') : Keeps tandem S parser parser' Q' := by
  intro feed feed' hfeed reply hreply
  obtain ⟨rest', hreply', hrest, hvalue⟩ := h feed feed' (hP _ _ hfeed) reply hreply
  exact ⟨rest', hreply', hrest, fun a ha => hQ a _ _ (hvalue a ha)⟩

theorem Keeps.pre {parser parser' : Parser α} (h : Keeps tandem P parser parser' Q)
    (hP : ∀ feed feed', S feed feed' → P feed feed') : Keeps tandem S parser parser' Q :=
  h.weaken hP fun _ _ _ h => h

/-! ## Ways of building parsers -/

theorem current_bind (next : Token → Parser α) (feed : Feed) :
    (current >>= next) feed = next feed.current feed := by
  simp only [Bind.bind, andThen, current]
  cases next feed.current feed <;> rfl

theorem peek_bind (next : Token → Parser α) (feed : Feed) :
    (peek >>= next) feed = next feed.peek feed := by
  simp only [Bind.bind, andThen, peek]
  cases next feed.peek feed <;> rfl

theorem keeps_pure {a : α} (hat : ∀ {feed feed'}, P feed feed' → tandem.At feed feed')
    (hQ : ∀ feed feed', P feed feed' → Q a feed feed') : Keeps tandem P (pure a) (pure a) Q := by
  rintro feed feed' hfeed reply hreply
  obtain rfl : _ = reply := Option.some.inj hreply
  exact ⟨feed', rfl, hat hfeed, fun b hb => Option.some.inj hb ▸ hQ _ _ hfeed⟩

theorem keeps_fail {error : ParseError} :
    Keeps tandem tandem.At (fail error) (fail error) Q := by
  rintro feed feed' hfeed reply hreply
  obtain rfl : _ = reply := Option.some.inj hreply
  exact ⟨feed', rfl, hfeed, fun b hb => by simp at hb⟩

theorem keeps_report {error : ParseError} :
    Keeps tandem tandem.At (report error) (report error) fun _ => tandem.At := by
  rintro feed feed' hfeed reply hreply
  obtain rfl : _ = reply := Option.some.inj hreply
  exact ⟨feed', rfl, hfeed, fun _ _ => hfeed⟩

theorem keeps_exhausted {parser' : Parser α} : Keeps tandem P exhausted parser' Q := by
  rintro feed feed' - reply hreply
  simp [exhausted] at hreply

/-- What follows sees the token at the front, or it sees two end tokens. -/
theorem keeps_current_bind {next next' : Token → Parser α}
    (hat : ∀ {feed feed'}, P feed feed' → tandem.At feed feed')
    (hend : ∀ token token', token.kind = .endOfInput → token'.kind = .endOfInput →
      Keeps tandem (fun feed feed' => P feed feed' ∧ feed.current = token) (next token)
        (next' token') Q)
    (h : ∀ token, token.kind ≠ .endOfInput →
      Keeps tandem (fun feed feed' => P feed feed' ∧ feed.current = token) (next token)
        (next' token) Q) :
    Keeps tandem P (current >>= next) (current >>= next') Q := by
  intro feed feed' hfeed reply hreply
  rw [current_bind] at hreply ⊢
  have hkind := tandem.current_kind (hat hfeed)
  by_cases hfront : feed.current.kind = .endOfInput
  · exact hend _ _ hfront (hkind.trans hfront) feed feed' ⟨hfeed, rfl⟩ reply hreply
  · rw [tandem.current_eq (hat hfeed) hfront]
    exact h _ hfront feed feed' ⟨hfeed, rfl⟩ reply hreply

/-- What follows sees the kind of the token behind the front. -/
theorem keeps_peek_bind {next next' : Token → Parser α}
    (h : ∀ token token', token'.kind = token.kind →
      Keeps tandem (fun feed feed' => tandem.Before feed feed' ∧ feed.peek = token) (next token)
        (next' token') Q) :
    Keeps tandem tandem.Before (peek >>= next) (peek >>= next') Q := by
  intro feed feed' hfeed reply hreply
  rw [peek_bind] at hreply ⊢
  exact h _ _ (tandem.peek_kind hfeed) feed feed' ⟨hfeed, rfl⟩ reply hreply

theorem keeps_move {step : Feed → Feed}
    (hstep : ∀ {feed feed'}, P feed feed' → tandem.At (step feed) (step feed')) :
    Keeps tandem P (move step) (move step) fun _ => tandem.At := by
  rintro feed feed' hfeed reply hreply
  obtain rfl : _ = reply := Option.some.inj hreply
  exact ⟨step feed', rfl, hstep hfeed, fun _ _ => hstep hfeed⟩

theorem keeps_advance : Keeps tandem tandem.Before advance advance fun _ => tandem.At :=
  keeps_move tandem.at_advance

theorem keeps_skipSemicolons :
    Keeps tandem tandem.Before (move Feed.skipSemicolons) (move Feed.skipSemicolons)
      fun _ => tandem.At :=
  keeps_move tandem.at_skipSemicolons

theorem Keeps.bind {parser parser' : Parser α} {next next' : α → Parser β}
    (h : Keeps tandem P parser parser' Q) (hnext : ∀ a, Keeps tandem (Q a) (next a) (next' a) R) :
    Keeps tandem P (parser >>= next) (parser' >>= next') R := by
  intro feed feed' hfeed reply hreply
  obtain ⟨⟨value?, errors, rest⟩, hfirst⟩ : ∃ first, parser feed = some first := by
    rcases hfirst : parser feed with _ | first
    · simp [Bind.bind, andThen, hfirst] at hreply
    · exact ⟨first, rfl⟩
  obtain ⟨rest', hfirst', hrest, hvalue⟩ := h feed feed' hfeed _ hfirst
  cases value? with
  | none =>
      obtain rfl : _ = reply := by simpa [Bind.bind, andThen, hfirst] using hreply
      exact ⟨rest', by simp [Bind.bind, andThen, hfirst'], hrest, fun b hb => by simp at hb⟩
  | some a =>
      obtain ⟨last, hlast, rfl⟩ : ∃ last, next a rest = some last ∧ last.after errors = reply := by
        simpa [Bind.bind, andThen, hfirst] using hreply
      obtain ⟨last', hlast', hat, hvalue'⟩ := hnext a rest rest' (hvalue a rfl) last hlast
      exact ⟨last', by simp [Bind.bind, andThen, hfirst', hlast', Reply.after], hat, hvalue'⟩

theorem keeps_ite {c : Prop} [Decidable c] {parser parser' other other' : Parser α}
    (h : c → Keeps tandem P parser parser' Q) (hother : ¬ c → Keeps tandem P other other' Q) :
    Keeps tandem P (if c then parser else other) (if c then parser' else other') Q := by
  split
  · exact h ‹_›
  · exact hother ‹_›

theorem Keeps.attempt {parser parser' : Parser α} (h : Keeps tandem P parser parser' Q) :
    Keeps tandem P (attempt parser) (Parser.attempt parser') fun a? feed feed' =>
      tandem.At feed feed' ∧ ∀ a, a? = some a → Q a feed feed' := by
  intro feed feed' hfeed reply hreply
  obtain ⟨first, hfirst, rfl⟩ := Option.map_eq_some_iff.1 hreply
  obtain ⟨rest', hfirst', hrest, hvalue⟩ := h feed feed' hfeed _ hfirst
  refine ⟨rest', by simp [Parser.attempt, hfirst'], hrest, ?_⟩
  rintro a? ha?
  obtain rfl : first.value? = a? := Option.some.inj ha?
  exact ⟨hrest, hvalue⟩

/-- What follows a token that is no semicolon is the same in both feeds. -/
theorem keeps_expect {wanted : Kind} (hwanted : wanted ≠ .semicolon) :
    Keeps tandem tandem.Before (expect wanted) (expect wanted) fun _ feed feed' =>
      tandem.Before feed feed' ∧ feed.current.kind = wanted := by
  rintro feed feed' hfeed reply hreply
  by_cases hkind : feed.peek.kind = wanted
  · have hat := tandem.at_advance hfeed
    obtain rfl : (⟨some (), [], feed.advance⟩ : Reply Unit) = reply := by
      simpa [expect, Bind.bind, andThen, peek, hkind, advance, move, Reply.after] using hreply
    refine ⟨feed'.advance, ?_, hat, fun _ _ => ⟨tandem.before_of_kind hat ?_, hkind⟩⟩
    · simp [expect, Bind.bind, andThen, peek, tandem.peek_kind hfeed, hkind, advance, move,
        Reply.after]
    · exact fun hsemicolon => hwanted (hkind.symm.trans hsemicolon)
  · obtain rfl : (⟨none, [.expected wanted feed.peek.kind], feed⟩ : Reply Unit) = reply := by
      simpa [expect, Bind.bind, andThen, peek, hkind, fail, Reply.after] using hreply
    refine ⟨feed', ?_, tandem.at_of_before hfeed, fun _ h => by simp at h⟩
    simp [expect, Bind.bind, andThen, peek, tandem.peek_kind hfeed, hkind, fail, Reply.after]

/-- Onto a token that is known to be no semicolon. -/
theorem keeps_advance_to {token : Token} (htoken : token.kind ≠ .semicolon) :
    Keeps tandem (fun feed feed' => tandem.Before feed feed' ∧ feed.peek = token) advance advance
      fun _ feed feed' => tandem.Before feed feed' ∧ feed.current = token := by
  rintro feed feed' ⟨hbefore, rfl⟩ reply hreply
  obtain rfl : _ = reply := Option.some.inj hreply
  have hat := tandem.at_advance hbefore
  exact ⟨_, rfl, hat, fun _ _ => ⟨tandem.before_of_kind hat htoken, rfl⟩⟩

/-! ## Repetition -/

section

variable {step step' : Parser (Option (List α))} (h : Keeps tandem P step step' fun _ => P)
  (hat : ∀ {feed feed'}, P feed feed' → tandem.At feed feed')

include h hat

theorem Keeps.gatherUpTo {bound bound' : Nat} (hle : bound ≤ bound') :
    Keeps tandem P (gatherUpTo step bound) (gatherUpTo step' bound') fun _ => P := by
  induction bound generalizing bound' with
  | zero => exact keeps_exhausted
  | succ bound ih =>
      obtain ⟨bound', rfl⟩ : ∃ n, bound' = n + 1 := ⟨bound' - 1, by omega⟩
      refine h.bind fun items? => ?_
      cases items? with
      | none => exact keeps_pure hat fun _ _ h => h
      | some items => exact (ih (by omega)).bind fun _ => keeps_pure hat fun _ _ h => h

theorem Keeps.gather : Keeps tandem P (gather step) (gather step') fun _ => P :=
  fun feed feed' hfeed =>
    h.gatherUpTo hat (Nat.succ_le_succ (tandem.length_le (hat hfeed))) feed feed' hfeed

end

/-- The items of a list end with tokens that are no semicolons. -/
theorem Keeps.listUpTo {item item' : Parser α} {closing : Kind} (hclosing : closing ≠ .semicolon)
    (h : Keeps tandem tandem.At item item' fun _ => tandem.Before) :
    Keeps tandem tandem.Before (listUpTo closing item) (listUpTo closing item')
      fun _ => tandem.Before := by
  have hstep : Keeps tandem tandem.Before (listStep closing item) (listStep closing item')
      fun _ => tandem.Before := by
    refine keeps_peek_bind fun next next' hnext => ?_
    rw [hnext]
    refine keeps_ite (fun hcomma => ?_) fun _ => ?_
    · refine (keeps_advance_to (by simp [hcomma])).bind fun _ =>
        (keeps_advance.pre fun _ _ h => h.1).bind fun _ => h.bind fun a => ?_
      exact keeps_pure tandem.at_of_before fun _ _ h => h
    · refine ((keeps_expect hclosing).pre fun _ _ h => h.1).bind fun _ => ?_
      exact keeps_pure (fun h => tandem.at_of_before h.1) fun _ _ h => h.1
  refine keeps_peek_bind fun next next' hnext => ?_
  rw [hnext]
  refine keeps_ite (fun hkind => ?_) fun _ => ?_
  · refine (keeps_advance_to (by rwa [hkind])).bind fun _ => ?_
    exact keeps_pure (fun h => tandem.at_of_before h.1) fun _ _ h => h.1
  · refine (keeps_advance.pre fun _ _ h => h.1).bind fun _ => h.bind fun first =>
      (hstep.gather tandem.at_of_before).bind fun others => ?_
    exact keeps_pure tandem.at_of_before fun _ _ h => h

/-! ## Rules -/

section

variable {limit : Numeral.DigitLimit} {expression expression' : ExpressionParser}
  (he : ∀ power, BindingPower.lowest ≤ power →
    Keeps tandem tandem.At (expression power) (expression' power) fun _ => tandem.Before)

/-- Where the token at the front is of a kind that is neither semicolon nor end. -/
theorem keeps_front {token : Token} {parser parser' : Parser α}
    (htoken : token.kind ∉ [.semicolon, .endOfInput])
    (h : Keeps tandem tandem.Inside parser parser' Q) :
    Keeps tandem (fun feed feed' => tandem.At feed feed' ∧ feed.current = token) parser parser'
      Q := by
  obtain ⟨hsemicolon, hend⟩ : token.kind ≠ .semicolon ∧ token.kind ≠ .endOfInput := by
    simpa using htoken
  rintro feed feed' ⟨hat, rfl⟩
  exact h feed feed' ⟨tandem.before_of_kind hat hsemicolon, hend⟩

theorem Keeps.inside {parser parser' : Parser α} (h : Keeps tandem tandem.Before parser parser' Q) :
    Keeps tandem tandem.Inside parser parser' Q :=
  h.pre fun _ _ h => h.before

theorem keeps_done {a : α} : Keeps tandem tandem.Before (pure a) (pure a) fun _ => tandem.Before :=
  keeps_pure tandem.at_of_before fun _ _ h => h

/-- Where the token at the front is no end token. -/
theorem keeps_token {next next' : Token → Parser α}
    (hat : ∀ {feed feed'}, P feed feed' → tandem.At feed feed')
    (hfront : ∀ {feed feed'}, P feed feed' → feed.current.kind ≠ .endOfInput)
    (h : ∀ token, Keeps tandem (fun feed feed' => P feed feed' ∧ feed.current = token) (next token)
      (next' token) Q) : Keeps tandem P (current >>= next) (current >>= next') Q := by
  refine keeps_current_bind hat (fun token token' hend _ => ?_) fun token _ => h token
  rintro feed feed' ⟨hfeed, rfl⟩
  exact absurd hend (hfront hfeed)

theorem keeps_inside_token {next next' : Token → Parser α}
    (h : ∀ token, Keeps tandem tandem.Inside (next token) (next' token) Q) :
    Keeps tandem tandem.Inside (current >>= next) (current >>= next') Q :=
  keeps_token (fun h => tandem.at_of_before h.before) (fun h => h.current) fun token =>
    (h token).pre fun _ _ h => h.1

theorem keeps_wanted {wanted : Kind} {next next' : Unit → Parser α}
    (hwanted : wanted ∉ [.semicolon, .endOfInput])
    (h : Keeps tandem tandem.Inside (next ()) (next' ()) Q) :
    Keeps tandem tandem.Before (expect wanted >>= next) (expect wanted >>= next') Q := by
  obtain ⟨hsemicolon, hend⟩ : wanted ≠ .semicolon ∧ wanted ≠ .endOfInput := by simpa using hwanted
  exact (keeps_expect hsemicolon).bind fun _ => h.pre fun _ _ h => ⟨h.1, h.2 ▸ hend⟩

include he

theorem keeps_lowest :
    Keeps tandem tandem.At (expression BindingPower.lowest) (expression' BindingPower.lowest)
      fun _ => tandem.Before :=
  he _ (Nat.le_refl _)

theorem keeps_letStatement :
    Keeps tandem tandem.Inside (letStatement expression) (letStatement expression')
      fun _ => tandem.At := by
  refine keeps_inside_token fun token => (keeps_wanted (by decide) <| keeps_inside_token fun name =>
    (keeps_wanted (by decide) <| Keeps.inside <| keeps_advance.bind fun _ =>
      (keeps_lowest he).bind fun value => keeps_skipSemicolons.bind fun _ => ?_).inside).inside
  exact keeps_pure (fun h => h) fun _ _ h => h

theorem keeps_returnStatement :
    Keeps tandem tandem.Inside (returnStatement expression) (returnStatement expression')
      fun _ => tandem.At := by
  refine keeps_inside_token fun token => Keeps.inside <| keeps_advance.bind fun _ =>
    (keeps_lowest he).bind fun value => keeps_skipSemicolons.bind fun _ => ?_
  exact keeps_pure (fun h => h) fun _ _ h => h

/-- A statement starts with no end token. -/
theorem keeps_expressionStatement :
    Keeps tandem (fun feed feed' => tandem.At feed feed' ∧ feed.current.kind ≠ .endOfInput)
      (expressionStatement expression) (expressionStatement expression') fun _ => tandem.At := by
  refine keeps_token (fun h => h.1) (fun h => h.2) fun token =>
    ((keeps_lowest he).pre fun _ _ h => h.1.1).bind fun value => keeps_skipSemicolons.bind fun _ =>
      ?_
  exact keeps_pure (fun h => h) fun _ _ h => h

theorem keeps_statement :
    Keeps tandem (fun feed feed' => tandem.At feed feed' ∧ feed.current.kind ≠ .endOfInput)
      (statement expression) (statement expression') fun _ => tandem.At := by
  refine keeps_token (fun h => h.1) (fun h => h.2) fun token => ?_
  split
  · next hkind =>
      exact (keeps_front (by simp [hkind]) (keeps_letStatement he)).pre fun _ _ h => ⟨h.1.1, h.2⟩
  · next hkind =>
      exact (keeps_front (by simp [hkind]) (keeps_returnStatement he)).pre fun _ _ h => ⟨h.1.1, h.2⟩
  · exact (keeps_expressionStatement he).pre fun _ _ h => h.1

/-- From a token that is no end token on, a failure to read a statement is caught in both feeds. -/
theorem keeps_attempt_statement {token : Token} (htoken : token.kind ≠ .endOfInput) :
    Keeps tandem (fun feed feed' => tandem.At feed feed' ∧ feed.current = token)
      (attempt (statement expression)) (attempt (statement expression')) fun _ => tandem.At := by
  have hread : Keeps tandem (fun feed feed' => tandem.At feed feed' ∧ feed.current = token)
      (statement expression) (statement expression') fun _ => tandem.At :=
    (keeps_statement he).pre fun _ _ h => ⟨h.1, h.2 ▸ htoken⟩
  exact hread.attempt.weaken (fun _ _ h => h) fun _ _ _ h => h.1

section

variable (honward : Feed.Onward tandem.At tandem.Before)

omit he in
theorem keeps_same {a : α} : Keeps tandem tandem.At (pure a) (pure a) fun _ => tandem.At :=
  keeps_pure (fun h => h) fun _ _ h => h

omit he in
include honward in
theorem keeps_skipTo (stops : List Kind) :
    Keeps tandem tandem.At (move (Feed.skipTo stops)) (move (Feed.skipTo stops))
      fun _ => tandem.At :=
  keeps_move fun h => (honward h).2 stops

omit he in
include honward in
theorem keeps_onward {a : α} :
    Keeps tandem tandem.At (do advance; pure a) (do advance; pure a) fun _ => tandem.At :=
  (keeps_advance.pre fun _ _ h => (honward h).1).bind fun _ => keeps_same

include honward

/-- A block that starts where the feeds go on in the same way is the same throughout. -/
theorem keeps_blockStep :
    Keeps tandem tandem.At (blockStep expression) (blockStep expression') fun _ => tandem.At := by
  refine keeps_current_bind (fun h => h) (fun token token' hend hend' => ?_) fun token htoken => ?_
  · rw [hend, hend']
    exact (keeps_report.pre fun _ _ h => h.1).bind fun _ => keeps_same
  · split
    · exact keeps_same.pre fun _ _ h => h.1
    · next hend => exact absurd hend htoken
    · refine (keeps_attempt_statement he htoken).bind fun node? => ?_
      cases node? with
      | some node => exact keeps_onward honward
      | none =>
          refine (keeps_skipTo honward _).bind fun _ => keeps_current_bind (fun h => h)
            (fun token token' hend hend' => ?_) fun token _ => Keeps.pre ?_ fun _ _ h => h.1
          · rw [hend, hend']
            exact (keeps_onward honward).pre fun _ _ h => h.1
          · exact keeps_ite (fun _ => keeps_same) fun _ => keeps_onward honward

theorem keeps_programStep :
    Keeps tandem tandem.At (programStep expression) (programStep expression')
      fun _ => tandem.At := by
  refine keeps_current_bind (fun h => h) (fun token token' hend hend' => ?_) fun token htoken => ?_
  · rw [if_pos hend, if_pos hend']
    exact keeps_same.pre fun _ _ h => h.1
  · rw [if_neg htoken, if_neg htoken]
    refine (keeps_attempt_statement he htoken).bind fun node? => ?_
    cases node? with
    | some node => exact keeps_onward honward
    | none => exact (keeps_skipTo honward _).bind fun _ => keeps_onward honward

end

theorem keeps_block :
    Keeps tandem (fun feed feed' => tandem.Before feed feed' ∧ feed.current.kind = .leftBrace)
      (block expression) (block expression') fun _ => tandem.Before := by
  obtain hnone | honward := tandem.no_block_or_onward
  · exact fun feed feed' ⟨hbefore, hkind⟩ => absurd hkind (hnone (tandem.at_of_before hbefore))
  · refine (keeps_inside_token fun token => Keeps.inside <| keeps_advance.bind fun _ =>
      ((keeps_blockStep he honward).gather fun h => h).bind fun nodes => ?_).pre
        fun _ _ h => ⟨h.1, by simp [h.2]⟩
    exact keeps_pure (fun h => h) fun _ _ h => (honward h).1

/-! ## Operands -/

omit he in
theorem keeps_integer :
    Keeps tandem tandem.Inside (integer limit) (integer limit) fun _ => tandem.Before := by
  refine keeps_inside_token fun token => Keeps.inside ?_
  split
  · exact keeps_ite (fun _ => keeps_done) fun _ => keeps_fail.pre fun _ _ => tandem.at_of_before
  · exact keeps_fail.pre fun _ _ => tandem.at_of_before

theorem keeps_prefixed :
    Keeps tandem tandem.Inside (prefixed expression) (prefixed expression')
      fun _ => tandem.Before :=
  keeps_inside_token fun _ => Keeps.inside <| keeps_advance.bind fun _ =>
    (he _ (by decide)).bind fun _ => keeps_done

theorem keeps_grouped :
    Keeps tandem tandem.Before (grouped expression) (grouped expression')
      fun _ => tandem.Before :=
  keeps_advance.bind fun _ => (keeps_lowest he).bind fun _ =>
    keeps_wanted (by decide) keeps_done.inside

theorem keeps_alternative :
    Keeps tandem tandem.Before (alternative expression) (alternative expression')
      fun _ => tandem.Before := by
  refine keeps_peek_bind fun next next' hnext => ?_
  rw [hnext]
  refine keeps_ite (fun hkind => ?_) fun _ => ?_
  · exact (keeps_advance_to (by simp [hkind])).bind fun _ =>
      ((keeps_expect (by decide)).pre fun _ _ h => h.1).bind fun _ => keeps_block he
  · exact keeps_done.pre fun _ _ h => h.1

theorem keeps_conditional :
    Keeps tandem tandem.Inside (conditional expression) (conditional expression')
      fun _ => tandem.Before :=
  keeps_inside_token fun _ => Keeps.inside <| keeps_wanted (by decide) <| Keeps.inside <|
    keeps_advance.bind fun _ => (keeps_lowest he).bind fun _ => keeps_wanted (by decide) <|
      Keeps.inside <| (keeps_expect (by decide)).bind fun _ => (keeps_block he).bind fun _ =>
        (keeps_alternative he).bind fun _ => keeps_done

omit he in
theorem keeps_parameter : Keeps tandem tandem.At parameter parameter fun _ => tandem.Before := by
  refine keeps_current_bind (fun h => h) (fun token token' hend hend' => ?_) fun token _ => ?_
  · rw [hend, hend']
    exact keeps_fail.pre fun _ _ h => h.1
  · refine keeps_ite (fun hkind => ?_) fun _ => ?_
    · exact keeps_front (by simp [hkind]) keeps_done.inside
    · exact keeps_fail.pre fun _ _ h => h.1

theorem keeps_function :
    Keeps tandem tandem.Inside (function expression) (function expression')
      fun _ => tandem.Before :=
  keeps_inside_token fun _ => Keeps.inside <| keeps_wanted (by decide) <| Keeps.inside <|
    (keeps_parameter.listUpTo (by decide)).bind fun _ =>
      (keeps_expect (by decide)).bind fun _ => (keeps_block he).bind fun _ => keeps_done

theorem keeps_array :
    Keeps tandem tandem.Inside (array expression) (array expression') fun _ => tandem.Before :=
  keeps_inside_token fun _ =>
    (((keeps_lowest he).listUpTo (by decide)).bind fun _ => keeps_done).inside

theorem keeps_pair :
    Keeps tandem tandem.At (pair expression) (pair expression') fun _ => tandem.Before :=
  (keeps_lowest he).bind fun _ => keeps_wanted (by decide) <| Keeps.inside <|
    keeps_advance.bind fun _ => (keeps_lowest he).bind fun _ => keeps_done

theorem keeps_hash :
    Keeps tandem tandem.Inside (hash expression) (hash expression') fun _ => tandem.Before :=
  keeps_inside_token fun _ =>
    (((keeps_pair he).listUpTo (by decide)).bind fun _ => keeps_done).inside

theorem keeps_operand :
    Keeps tandem tandem.At (operand limit expression) (operand limit expression')
      fun _ => tandem.Before := by
  refine keeps_current_bind (fun h => h) (fun token token' hend hend' => ?_) fun token _ => ?_
  · rw [hend, hend']
    exact keeps_fail.pre fun _ _ h => h.1
  split
  · next hkind => exact keeps_front (by simp [hkind]) keeps_done.inside
  · next hkind => exact keeps_front (by simp [hkind]) keeps_integer
  · next hkind => exact keeps_front (by simp [hkind]) keeps_done.inside
  · next hkind => exact keeps_front (by simp [hkind]) keeps_done.inside
  · next hkind => exact keeps_front (by simp [hkind]) keeps_done.inside
  · next hkind => exact keeps_front (by simp [hkind]) (keeps_prefixed he)
  · next hkind => exact keeps_front (by simp [hkind]) (keeps_prefixed he)
  · next hkind => exact keeps_front (by simp [hkind]) (keeps_grouped he).inside
  · next hkind => exact keeps_front (by simp [hkind]) (keeps_conditional he)
  · next hkind => exact keeps_front (by simp [hkind]) (keeps_function he)
  · next hkind => exact keeps_front (by simp [hkind]) (keeps_array he)
  · next hkind => exact keeps_front (by simp [hkind]) (keeps_hash he)
  · exact keeps_fail.pre fun _ _ h => h.1

/-! ## Extensions -/

theorem keeps_extension (left : Node) :
    Keeps tandem tandem.Inside (extension expression left) (extension expression' left)
      fun _ => tandem.Before := by
  refine keeps_inside_token fun token => ?_
  split
  · exact keeps_inside_token fun _ =>
      (((keeps_lowest he).listUpTo (by decide)).bind fun _ => keeps_done).inside
  · exact keeps_inside_token fun _ => Keeps.inside <| keeps_advance.bind fun _ =>
      (keeps_lowest he).bind fun _ => keeps_wanted (by decide) keeps_done.inside
  · exact keeps_inside_token fun _ => Keeps.inside <| keeps_wanted (by decide) <|
      keeps_inside_token fun _ => keeps_done.inside
  · exact keeps_inside_token fun token => Keeps.inside <| keeps_advance.bind fun _ =>
      (he _ (lowest_le_bindingPower token.kind)).bind fun _ => keeps_done

/-- What extends an operand is neither a semicolon nor the end, because those bind to nothing. -/
theorem keeps_extendUpTo {power bound bound' : Nat} (hpower : BindingPower.lowest ≤ power)
    (hle : bound ≤ bound') (left : Node) :
    Keeps tandem tandem.Before (extendUpTo expression power bound left)
      (extendUpTo expression' power bound' left) fun _ => tandem.Before := by
  induction bound generalizing bound' left with
  | zero => exact keeps_exhausted
  | succ bound ih =>
      obtain ⟨bound', rfl⟩ : ∃ n, bound' = n + 1 := ⟨bound' - 1, by omega⟩
      refine keeps_peek_bind fun next next' hnext => ?_
      rw [hnext]
      refine keeps_ite (fun hbinds => ?_) fun _ => ?_
      · have hlowest : next.kind.bindingPower ≠ BindingPower.lowest :=
          Nat.ne_of_gt (Nat.lt_of_le_of_lt hpower hbinds)
        have hsemicolon : next.kind ≠ .semicolon := fun hkind => hlowest (by rw [hkind]; rfl)
        have hend : next.kind ≠ .endOfInput := fun hkind => hlowest (by rw [hkind]; rfl)
        refine (keeps_advance_to hsemicolon).bind fun _ => ?_
        have hlonger : Keeps tandem (fun feed feed' => tandem.Before feed feed' ∧
            feed.current = next) (extension expression left) (extension expression' left)
            fun _ => tandem.Before :=
          (keeps_extension he left).pre fun _ _ h => ⟨h.1, h.2 ▸ hend⟩
        exact hlonger.bind fun longer => ih (by omega) longer
      · exact keeps_done.pre fun _ _ h => h.1

theorem keeps_extend {power : Nat} (hpower : BindingPower.lowest ≤ power) (left : Node) :
    Keeps tandem tandem.Before (extend expression power left) (extend expression' power left)
      fun _ => tandem.Before := fun feed feed' hfeed =>
  keeps_extendUpTo he hpower
    (Nat.succ_le_succ (tandem.length_le (tandem.at_of_before hfeed))) left feed feed' hfeed

end

/-- Expressions keep to any tandem, and may nest deeper in the second feed. -/
theorem keeps_expression (tandem : Tandem) (limit : Numeral.DigitLimit) {depth depth' : Nat}
    (hle : depth ≤ depth') (power : Nat) (hpower : BindingPower.lowest ≤ power) :
    Keeps tandem tandem.At (expression limit depth power) (expression limit depth' power)
      fun _ => tandem.Before := by
  induction depth generalizing depth' power with
  | zero => exact keeps_exhausted
  | succ depth ih =>
      obtain ⟨depth', rfl⟩ : ∃ n, depth' = n + 1 := ⟨depth' - 1, by omega⟩
      have he := fun power hpower => ih (by omega : depth ≤ depth') power hpower
      exact (keeps_operand he).bind fun left => keeps_extend he hpower left

/-! ## More room -/

/-- In tandem with itself each feed gives the second parser the replies of the first one. -/
theorem keeps_same_iff {parser parser' : Parser α} :
    (Keeps .same Tandem.same.At parser parser' fun _ => Tandem.same.At) ↔
      ∀ feed reply, parser feed = some reply → parser' feed = some reply := by
  constructor
  · intro h feed reply hreply
    obtain ⟨rest', hreply', rfl, -⟩ := h feed feed rfl reply hreply
    exact hreply'
  · rintro h feed _ rfl reply hreply
    exact ⟨reply.rest, h feed reply hreply, rfl, fun _ _ => rfl⟩

/-- More rounds than are needed change nothing. -/
theorem gatherUpTo_mono {step : Parser (Option (List α))} {bound more : Nat} (hle : bound ≤ more)
    {feed : Feed} {reply : Reply (List α)} (h : gatherUpTo step bound feed = some reply) :
    gatherUpTo step more feed = some reply := by
  have hstep : Keeps .same Tandem.same.At step step fun _ => Tandem.same.At :=
    keeps_same_iff.2 fun _ _ hreply => hreply
  exact keeps_same_iff.1 (hstep.gatherUpTo (fun h => h) hle) feed reply h

theorem extendUpTo_mono {expression : ExpressionParser} {power bound more : Nat}
    (hpower : BindingPower.lowest ≤ power) (hle : bound ≤ more) {left : Node} {feed : Feed}
    {reply : Reply Node} (h : extendUpTo expression power bound left feed = some reply) :
    extendUpTo expression power more left feed = some reply := by
  have hexpression : ∀ power, BindingPower.lowest ≤ power →
      Keeps .same Tandem.same.At (expression power) (expression power)
        fun _ => Tandem.same.Before :=
    fun _ _ => keeps_same_iff.2 fun _ _ hreply => hreply
  exact keeps_same_iff.1 (keeps_extendUpTo hexpression hpower hle left) feed reply h

/-- An expression that may nest deeper is read as the same one. -/
theorem expression_mono {limit : Numeral.DigitLimit} {depth more : Nat} (hle : depth ≤ more)
    {power : Nat} (hpower : BindingPower.lowest ≤ power) {feed : Feed} {reply : Reply Node}
    (h : expression limit depth power feed = some reply) :
    expression limit more power feed = some reply :=
  keeps_same_iff.1 (keeps_expression .same limit hle power hpower) feed reply h

/-- A program in which expressions may nest deeper is read as the same one. -/
theorem programStatements_mono {limit : Numeral.DigitLimit} {depth more : Nat} (hle : depth ≤ more)
    {feed : Feed} {reply : Reply (List Node)}
    (h : programStatements (expression limit depth) feed = some reply) :
    programStatements (expression limit more) feed = some reply := by
  have hstep := keeps_programStep (keeps_expression .same limit hle) Feed.onward_eq
  exact keeps_same_iff.1 (hstep.gather fun h => h) feed reply h

end Parser

end MonkeyLanguage
