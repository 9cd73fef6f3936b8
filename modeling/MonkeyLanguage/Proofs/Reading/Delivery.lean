-- SUMMARY: Parsers that always reply and read forward only.
import Mathlib.Tactic.Common
import MonkeyLanguage.Parse

/-!
# Deliveries

A parser delivers if it has a reply and leaves an end piece of its feed. `Delivers P parser Q`
says so for the feeds that satisfy `P`, and also that a value and the feed behind it satisfy
`Q`. The rules follow the ways of building parsers, with one for each kind of repetition.
-/

namespace MonkeyLanguage

namespace Feed

/-- What is left of a feed. -/
structure Behind (rest feed : Feed) : Prop where
  suffix : rest.ahead <:+ feed.ahead
  finish : rest.finish = feed.finish

theorem Behind.refl (feed : Feed) : feed.Behind feed := ⟨List.suffix_refl _, rfl⟩

theorem Behind.trans {last rest feed : Feed} (h : last.Behind rest) (hrest : rest.Behind feed) :
    last.Behind feed :=
  ⟨h.suffix.trans hrest.suffix, h.finish.trans hrest.finish⟩

theorem behind_advance (feed : Feed) : feed.advance.Behind feed :=
  ⟨List.tail_suffix _, rfl⟩

theorem behind_skipTo (stops : List Kind) (feed : Feed) : (feed.skipTo stops).Behind feed :=
  ⟨List.dropWhile_suffix _, rfl⟩

theorem behind_skipSemicolons (feed : Feed) : feed.skipSemicolons.Behind feed := by
  refine ⟨?_, rfl⟩
  simp only [skipSemicolons]
  fun_induction dropSemicolons feed.ahead with
  | case1 front next rest hnext ih => exact ih.trans (List.suffix_cons _ _)
  | case2 => exact List.suffix_refl _
  | case3 => exact List.suffix_refl _

/-- Fewer than `bound` tokens are ahead, and all of them are as they should be. -/
def Within (T : Token → Prop) (bound : Nat) (feed : Feed) : Prop :=
  feed.ahead.length < bound ∧ ∀ token ∈ feed.ahead, T token

variable {T : Token → Prop} {bound : Nat}

theorem Within.mono {more : Nat} {feed : Feed} (h : Within T bound feed) (hle : bound ≤ more) :
    Within T more feed :=
  ⟨Nat.lt_of_lt_of_le h.1 hle, h.2⟩

theorem Within.behind {rest feed : Feed} (h : Within T bound feed) (hrest : rest.Behind feed) :
    Within T bound rest :=
  ⟨Nat.lt_of_le_of_lt hrest.suffix.length_le h.1, fun token hmem =>
    h.2 token (hrest.suffix.subset hmem)⟩

theorem Within.current {feed : Feed} (h : Within T bound feed)
    (hcurrent : feed.current.kind ≠ .endOfInput) : T feed.current := by
  have hfront := ahead_eq_cons (ahead_ne_nil hcurrent)
  exact h.2 _ (by rw [hfront]; exact List.mem_cons_self)

theorem ahead_ne_nil_of_advance {feed : Feed} (h : feed.advance.ahead ≠ []) : feed.ahead ≠ [] :=
  fun hnil => h (by simp [Feed.advance, hnil])

theorem Within.pos {feed : Feed} (h : Within T (bound + 1) feed) (hahead : feed.ahead ≠ []) :
    0 < bound := by
  have hlength := h.1
  have hpos := List.length_pos_iff.2 hahead
  omega

/-- Where there was room for a token, advancing makes room, even at the end of the feed. -/
theorem Within.advance_of_pos {feed : Feed} (h : Within T (bound + 1) feed) (hpos : 0 < bound) :
    Within T bound feed.advance := by
  refine ⟨?_, (h.behind feed.behind_advance).2⟩
  have hlength := h.1
  simp only [Feed.advance, List.length_tail]
  omega

/-- Advancing over a token makes room. -/
theorem Within.advance {feed : Feed} (h : Within T (bound + 1) feed) (hahead : feed.ahead ≠ []) :
    Within T bound feed.advance :=
  h.advance_of_pos (h.pos hahead)

end Feed

namespace Parser

variable {α β : Type} {P S : Feed → Prop} {Q Q' : α → Feed → Prop} {R : β → Feed → Prop}

/-- On the feeds of `P` the parser replies and reads forward only, and its values satisfy `Q`. -/
def Delivers (P : Feed → Prop) (parser : Parser α) (Q : α → Feed → Prop) : Prop :=
  ∀ feed, P feed → ∃ reply, parser feed = some reply ∧ reply.rest.Behind feed ∧
    ∀ a, reply.value? = some a → Q a reply.rest

theorem Delivers.weaken {parser : Parser α} (h : Delivers P parser Q) (hP : ∀ feed, S feed → P feed)
    (hQ : ∀ a feed, Q a feed → Q' a feed) : Delivers S parser Q' := by
  intro feed hfeed
  obtain ⟨reply, hreply, hbehind, hvalue⟩ := h feed (hP feed hfeed)
  exact ⟨reply, hreply, hbehind, fun a ha => hQ a _ (hvalue a ha)⟩

/-! ## Ways of building parsers -/

theorem delivers_pure {a : α} (h : ∀ feed, P feed → Q a feed) : Delivers P (pure a) Q := by
  intro feed hfeed
  refine ⟨⟨some a, [], feed⟩, rfl, .refl feed, fun b hb => ?_⟩
  obtain rfl : a = b := by simpa using hb
  exact h feed hfeed

theorem delivers_fail {error : ParseError} : Delivers P (fail error) Q :=
  fun feed _ => ⟨⟨none, [error], feed⟩, rfl, .refl feed, fun _ h => by simp at h⟩

theorem delivers_report {error : ParseError} :
    Delivers P (report error) (fun _ feed => P feed) :=
  fun feed hfeed => ⟨⟨some (), [error], feed⟩, rfl, .refl feed, fun _ _ => hfeed⟩

theorem delivers_current : Delivers P current (fun token feed => P feed ∧ token = feed.current) :=
  fun feed hfeed => ⟨⟨some feed.current, [], feed⟩, rfl, .refl feed,
    fun a ha => ⟨hfeed, by simpa using ha.symm⟩⟩

theorem delivers_peek :
    Delivers P peek (fun token feed => P feed ∧ token = feed.advance.current) :=
  fun feed hfeed => ⟨⟨some feed.peek, [], feed⟩, rfl, .refl feed,
    fun a ha => ⟨hfeed, by simpa [Feed.peek, Feed.advance, Feed.current] using ha.symm⟩⟩

theorem delivers_move {step : Feed → Feed} (hstep : ∀ feed, (step feed).Behind feed)
    (h : ∀ feed, P feed → S (step feed)) : Delivers P (move step) (fun _ feed => S feed) :=
  fun feed hfeed => ⟨⟨some (), [], step feed⟩, rfl, hstep feed, fun _ _ => h feed hfeed⟩

theorem delivers_advance (h : ∀ feed, P feed → S feed.advance) :
    Delivers P advance (fun _ feed => S feed) :=
  delivers_move Feed.behind_advance h

theorem delivers_expect {wanted : Kind}
    (h : ∀ feed, P feed → feed.advance.current.kind = wanted → S feed.advance) :
    Delivers P (expect wanted) (fun _ feed => S feed ∧ feed.current.kind = wanted) := by
  intro feed hfeed
  by_cases hkind : feed.peek.kind = wanted
  · refine ⟨⟨some (), [], feed.advance⟩, ?_, feed.behind_advance,
      fun _ _ => ⟨h feed hfeed hkind, hkind⟩⟩
    simp [expect, Bind.bind, andThen, peek, hkind, advance, move, Reply.after]
  · refine ⟨⟨none, [.expected wanted feed.peek.kind], feed⟩, ?_, .refl feed,
      fun _ h => by simp at h⟩
    simp [expect, Bind.bind, andThen, peek, hkind, fail, Reply.after]

theorem Delivers.bind {parser : Parser α} {next : α → Parser β} (h : Delivers P parser Q)
    (hnext : ∀ a, Delivers (Q a) (next a) R) : Delivers P (parser >>= next) R := by
  intro feed hfeed
  obtain ⟨⟨value?, errors, rest⟩, hreply, hbehind, hvalue⟩ := h feed hfeed
  cases value? with
  | none =>
      exact ⟨⟨none, errors, rest⟩, by simp [Bind.bind, andThen, hreply], hbehind,
        fun b hb => by simp at hb⟩
  | some a =>
      obtain ⟨reply, hlast, hlastBehind, hlastValue⟩ := hnext a rest (hvalue a rfl)
      exact ⟨reply.after errors, by simp [Bind.bind, andThen, hreply, hlast],
        hlastBehind.trans hbehind, hlastValue⟩

/-- What a value satisfies by itself is known to all that follows. -/
theorem Delivers.bind_fact {parser : Parser α} {next : α → Parser β} {p : α → Prop}
    (h : Delivers P parser (fun a feed => S feed ∧ p a))
    (hnext : ∀ a, p a → Delivers S (next a) R) : Delivers P (parser >>= next) R :=
  h.bind fun a feed ⟨hfeed, ha⟩ => hnext a ha feed hfeed

theorem Delivers.pre {parser : Parser α} (h : Delivers P parser Q) (hP : ∀ feed, S feed → P feed) :
    Delivers S parser Q :=
  h.weaken hP fun _ _ h => h

/-- What holds of every end piece of the feed holds of the rest. -/
theorem Delivers.keep {parser : Parser α} (h : Delivers P parser Q)
    (hP : ∀ feed rest, P feed → rest.Behind feed → S rest) :
    Delivers P parser (fun a feed => S feed ∧ Q a feed) := by
  intro feed hfeed
  obtain ⟨reply, hreply, hbehind, hvalue⟩ := h feed hfeed
  exact ⟨reply, hreply, hbehind, fun a ha => ⟨hP feed _ hfeed hbehind, hvalue a ha⟩⟩

theorem delivers_ite {c : Prop} [Decidable c] {parser other : Parser α}
    (h : c → Delivers P parser Q) (hother : ¬ c → Delivers P other Q) :
    Delivers P (if c then parser else other) Q := by
  split
  · exact h ‹_›
  · exact hother ‹_›

/-- A failure that is caught still leaves an end piece of the feed. -/
theorem Delivers.attempt {parser : Parser α} (h : Delivers P parser Q)
    (hP : ∀ feed rest, P feed → rest.Behind feed → S rest) :
    Delivers P (attempt parser) (fun a? feed => S feed ∧ ∀ a, a? = some a → Q a feed) := by
  intro feed hfeed
  obtain ⟨⟨value?, errors, rest⟩, hreply, hbehind, hvalue⟩ := h feed hfeed
  refine ⟨⟨some value?, errors, rest⟩, by simp [Parser.attempt, hreply], hbehind, ?_⟩
  intro a? ha?
  obtain rfl : value? = a? := by simpa using ha?
  exact ⟨hP feed rest hfeed hbehind, fun a ha => hvalue a ha⟩

/-! ## Repetition

A round takes a token off the feed, so the rounds are never too many. -/

section

variable {T : Token → Prop} {bound : Nat}

open Feed

theorem delivers_gather {step : Parser (Option (List α))} {G : α → Prop}
    (hstep : ∀ room, room < bound → Delivers (Within T (room + 1)) step (fun items? feed =>
      ∀ items, items? = some items → Within T room feed ∧ ∀ a ∈ items, G a)) :
    Delivers (Within T bound) (gather step) (fun items _ => ∀ a ∈ items, G a) := by
  have hrounds : ∀ room, room < bound →
      Delivers (Within T (room + 1)) (gatherUpTo step (room + 1))
        (fun items _ => ∀ a ∈ items, G a) := by
    intro room
    induction room with
    | zero =>
        intro hroom
        refine (hstep 0 hroom).bind fun items? => ?_
        cases items? with
        | none => exact delivers_pure (by simp)
        | some items => exact fun feed hfeed => absurd (hfeed items rfl).1.1 (by simp)
    | succ room ih =>
        intro hroom
        refine (hstep (room + 1) hroom).bind fun items? => ?_
        cases items? with
        | none => exact delivers_pure (by simp)
        | some items =>
            refine Delivers.bind (Q := fun others _ => ∀ a ∈ items ++ others, G a) ?_ fun others =>
              delivers_pure fun _ h => h
            intro feed hfeed
            obtain ⟨hwithin, hitems⟩ := hfeed items rfl
            obtain ⟨reply, hreply, hbehind, hvalue⟩ := ih (by omega) feed hwithin
            refine ⟨reply, hreply, hbehind, fun others hothers a ha => ?_⟩
            rcases List.mem_append.1 ha with ha | ha
            · exact hitems a ha
            · exact hvalue others hothers a ha
  intro feed hfeed
  exact hrounds feed.ahead.length hfeed.1 feed ⟨Nat.lt_succ_self _, hfeed.2⟩

theorem delivers_listStep (closing : Kind) {item : Parser α} {G : α → Prop}
    (hitem : Delivers (Within T bound) item (fun a _ => G a)) {room : Nat} (hroom : room < bound) :
    Delivers (Within T (room + 1)) (listStep closing item) (fun items? feed =>
      ∀ items, items? = some items → Within T room feed ∧ ∀ a ∈ items, G a) := by
  refine delivers_peek.bind fun next => delivers_ite (fun hcomma => ?_) (fun _ => ?_)
  · refine (delivers_advance (S := fun feed => Within T room feed) ?_).bind fun _ => ?_
    · rintro feed ⟨hwithin, rfl⟩
      have hne : feed.advance.current.kind ≠ .endOfInput := by rw [hcomma]; decide
      exact hwithin.advance (ahead_ne_nil_of_advance (ahead_ne_nil hne))
    · refine (delivers_advance fun feed h => h.behind feed.behind_advance).bind fun _ => ?_
      refine ((hitem.weaken (fun _ h => h.mono (Nat.le_of_lt hroom)) fun _ _ h => h).keep
        fun _ _ h => h.behind).bind fun a => delivers_pure ?_
      rintro feed ⟨hwithin, ha⟩ items hitems
      obtain rfl : [a] = items := by simpa using hitems
      exact ⟨hwithin, by simpa using ha⟩
  · exact (delivers_expect (S := fun _ => True) fun _ _ _ => trivial).bind fun _ =>
      delivers_pure (by simp)

/-- A list whose opening token is at the front. -/
theorem delivers_listUpTo (closing : Kind) {item : Parser α} {G : α → Prop}
    (hitem : Delivers (Within T bound) item (fun a _ => G a)) :
    Delivers (fun feed => Within T (bound + 1) feed ∧ feed.ahead ≠ []) (listUpTo closing item)
      (fun items _ => ∀ a ∈ items, G a) := by
  have hadvance : ∀ {next : Token}, Delivers
      (fun feed => (Within T (bound + 1) feed ∧ feed.ahead ≠ []) ∧ next = feed.advance.current)
      advance (fun _ feed => Within T bound feed) :=
    delivers_advance fun feed h => h.1.1.advance h.1.2
  refine delivers_peek.bind fun next => delivers_ite (fun _ => ?_) (fun _ => ?_)
  · exact hadvance.bind fun _ => delivers_pure (by simp)
  · refine hadvance.bind fun _ => (hitem.keep fun _ _ h => h.behind).bind fun first => ?_
    refine Delivers.bind (Q := fun others _ => ∀ a ∈ first :: others, G a) ?_ fun others =>
      delivers_pure fun _ h => h
    intro feed ⟨hwithin, hfirst⟩
    obtain ⟨reply, hreply, hbehind, hvalue⟩ :=
      delivers_gather (fun room => delivers_listStep closing hitem) feed hwithin
    refine ⟨reply, hreply, hbehind, fun others hothers a ha => ?_⟩
    rcases List.mem_cons.1 ha with rfl | ha
    · exact hfirst
    · exact hvalue others hothers a ha

end

end Parser

end MonkeyLanguage
