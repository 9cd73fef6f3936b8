-- SUMMARY: Readings without errors, rule by rule.
import Mathlib.Tactic.Common
import MonkeyLanguage.Parse

/-!
# Readings without errors

A parser yields a value on a feed if it gets there without recording an error. The
lemmas below say for each way of building parsers what it takes for the whole to
yield a value, so that rules can be opened without looking into replies.
-/

namespace MonkeyLanguage.Parser

variable {α β : Type}

/-- The parser reads from a feed without an error, yields a value and leaves the rest. -/
def Yields (parser : Parser α) (feed : Feed) (a : α) (rest : Feed) : Prop :=
  parser feed = some ⟨some a, [], rest⟩

/-! ## Ways of building parsers -/

@[simp] theorem yields_pure {a b : α} {feed rest : Feed} :
    Yields (pure a) feed b rest ↔ b = a ∧ rest = feed := by
  simp only [Yields, pure, succeed, Option.some.injEq, Reply.mk.injEq, true_and]
  exact and_congr eq_comm eq_comm

@[simp] theorem yields_bind {parser : Parser α} {next : α → Parser β} {feed rest : Feed} {b : β} :
    Yields (parser >>= next) feed b rest ↔
      ∃ a mid, Yields parser feed a mid ∧ Yields (next a) mid b rest := by
  simp only [Yields, bind, andThen]
  rcases hp : parser feed with _ | ⟨_ | a, errors, mid⟩
  · simp
  · simp
  · constructor
    · intro h
      obtain ⟨⟨value?, others, last⟩, hnext, heq⟩ := Option.map_eq_some_iff.1 h
      simp only [Reply.after, Reply.mk.injEq, List.append_eq_nil_iff] at heq
      obtain ⟨rfl, ⟨rfl, rfl⟩, rfl⟩ := heq
      exact ⟨a, mid, rfl, hnext⟩
    · rintro ⟨a', mid', hfirst, hnext⟩
      simp only [Option.some.injEq, Reply.mk.injEq] at hfirst
      obtain ⟨rfl, rfl, rfl⟩ := hfirst
      simp [hnext, Reply.after]

@[simp] theorem not_yields_fail {error : ParseError} {feed rest : Feed} {a : α} :
    ¬ Yields (fail error) feed a rest := by
  simp [Yields, fail]

@[simp] theorem not_yields_report {error : ParseError} {feed rest : Feed} {a : Unit} :
    ¬ Yields (report error) feed a rest := by
  simp [Yields, report]

@[simp] theorem not_yields_exhausted {feed rest : Feed} {a : α} :
    ¬ Yields exhausted feed a rest := by
  simp [Yields, exhausted]

@[simp] theorem yields_ite {c : Prop} [Decidable c] {parser other : Parser α} {feed rest : Feed}
    {a : α} :
    Yields (if c then parser else other) feed a rest ↔
      if c then Yields parser feed a rest else Yields other feed a rest := by
  split <;> rfl

@[simp] theorem yields_current {feed rest : Feed} {token : Token} :
    Yields current feed token rest ↔ token = feed.current ∧ rest = feed := by
  simp only [Yields, current, Option.some.injEq, Reply.mk.injEq, true_and]
  exact and_congr eq_comm eq_comm

theorem yields_current_bind {next : Token → Parser α} {feed rest : Feed} {a : α} :
    Yields (current >>= next) feed a rest ↔ Yields (next feed.current) feed a rest := by
  simp

/-- The token that follows is the current one of the advanced feed; the lemmas below speak of it
that way only. -/
@[simp] theorem yields_peek {feed rest : Feed} {token : Token} :
    Yields peek feed token rest ↔ token = feed.advance.current ∧ rest = feed := by
  simp only [Yields, peek, Option.some.injEq, Reply.mk.injEq, true_and]
  exact and_congr eq_comm eq_comm

@[simp] theorem yields_move {step : Feed → Feed} {feed rest : Feed} {a : Unit} :
    Yields (move step) feed a rest ↔ rest = step feed := by
  simp [Yields, move, eq_comm]

@[simp] theorem yields_advance {feed rest : Feed} {a : Unit} :
    Yields advance feed a rest ↔ rest = feed.advance :=
  yields_move

@[simp] theorem yields_expect {wanted : Kind} {feed rest : Feed} {a : Unit} :
    Yields (expect wanted) feed a rest ↔ feed.advance.current.kind = wanted ∧ rest = feed.advance := by
  simp only [expect, yields_bind, yields_peek]
  constructor
  · rintro ⟨_, _, ⟨rfl, rfl⟩, h⟩
    split at h
    · exact ⟨‹_›, yields_advance.1 h⟩
    · exact absurd h not_yields_fail
  · rintro ⟨hkind, rfl⟩
    exact ⟨_, _, ⟨rfl, rfl⟩, by simp [hkind]⟩

@[simp] theorem yields_attempt_some {parser : Parser α} {feed rest : Feed} {a : α} :
    Yields (attempt parser) feed (some a) rest ↔ Yields parser feed a rest := by
  simp only [Yields, attempt]
  rcases parser feed with _ | ⟨value?, errors, last⟩ <;> simp

/-! ## Repetition -/

theorem yields_gatherUpTo {step : Parser (Option (List α))} {bound : Nat} {feed rest : Feed}
    {items : List α} :
    Yields (gatherUpTo step (bound + 1)) feed items rest ↔
      (Yields step feed none rest ∧ items = []) ∨
        ∃ front mid others, Yields step feed (some front) mid ∧
          Yields (gatherUpTo step bound) mid others rest ∧ items = front ++ others := by
  simp only [gatherUpTo, yields_bind]
  constructor
  · rintro ⟨_ | front, mid, hstep, h⟩
    · obtain ⟨rfl, rfl⟩ := yields_pure.1 h
      exact .inl ⟨hstep, rfl⟩
    · simp only [yields_bind, yields_pure] at h
      obtain ⟨others, last, hothers, rfl, rfl⟩ := h
      exact .inr ⟨front, mid, others, hstep, hothers, rfl⟩
  · rintro (⟨hstep, rfl⟩ | ⟨front, mid, others, hstep, hothers, rfl⟩)
    · exact ⟨none, rest, hstep, by simp⟩
    · exact ⟨some front, mid, hstep, by simpa using hothers⟩

/-- More rounds than are needed change nothing. -/
theorem Yields.gatherUpTo_mono {step : Parser (Option (List α))} {bound more : Nat}
    (hle : bound ≤ more) {feed rest : Feed} {items : List α}
    (h : Yields (gatherUpTo step bound) feed items rest) :
    Yields (gatherUpTo step more) feed items rest := by
  induction bound generalizing more feed items with
  | zero => exact absurd h not_yields_exhausted
  | succ bound ih =>
      obtain ⟨more, rfl⟩ : ∃ n, more = n + 1 := ⟨more - 1, by omega⟩
      rw [yields_gatherUpTo] at h ⊢
      obtain ⟨hstep, hitems⟩ | ⟨front, mid, others, hstep, hothers, hitems⟩ := h
      · exact .inl ⟨hstep, hitems⟩
      · exact .inr ⟨front, mid, others, hstep, ih (by omega) hothers, hitems⟩

theorem Yields.gather_stop {step : Parser (Option (List α))} {feed rest : Feed}
    (h : Yields step feed none rest) : Yields (gather step) feed [] rest :=
  yields_gatherUpTo.2 (.inl ⟨h, rfl⟩)

theorem Yields.gather_more {step : Parser (Option (List α))} {feed mid rest : Feed}
    {front others : List α} (hstep : Yields step feed (some front) mid)
    (hless : mid.ahead.length < feed.ahead.length) (hothers : Yields (gather step) mid others rest) :
    Yields (gather step) feed (front ++ others) rest :=
  yields_gatherUpTo.2 (.inr ⟨front, mid, others, hstep, hothers.gatherUpTo_mono hless, rfl⟩)

@[simp] theorem yields_listStep {closing : Kind} {item : Parser α} {feed rest : Feed}
    {items? : Option (List α)} :
    Yields (listStep closing item) feed items? rest ↔
      if feed.advance.current.kind = .comma then
        ∃ a, Yields item feed.advance.advance a rest ∧ items? = some [a]
      else feed.advance.current.kind = closing ∧ rest = feed.advance ∧ items? = none := by
  simp [listStep]
  grind

@[simp] theorem yields_listUpTo {closing : Kind} {item : Parser α} {feed rest : Feed}
    {items : List α} :
    Yields (listUpTo closing item) feed items rest ↔
      if feed.advance.current.kind = closing then items = [] ∧ rest = feed.advance
      else ∃ first mid others, Yields item feed.advance first mid ∧
        Yields (gather (listStep closing item)) mid others rest ∧ items = first :: others := by
  simp [listUpTo]

end MonkeyLanguage.Parser
