-- SUMMARY: Feeds of tokens, which never run dry.
import MonkeyLanguage.Token.Scan

/-!
# Token feeds

A feed is what remains to be read of a token sequence. Behind the last token it
supplies end tokens for ever, all at the same place.
-/

namespace MonkeyLanguage

/-- The tokens still to come, and the place of the end tokens behind them. -/
structure Feed where
  ahead : List Token
  finish : Position
  deriving DecidableEq

namespace Feed

/-- The feed of a list of tokens. Its end stands in the line of the last token. -/
def ofTokens (tokens : List Token) : Feed :=
  ⟨tokens, ⟨(tokens.getLast?.map fun token => token.position.line).getD 0, 0⟩⟩

/-- The feed of a source text. Its end is where scanning ended. -/
def ofSource (source : String) : Feed :=
  let tokens := Token.scan source
  ⟨tokens, (tokens.getLast?.map Token.position).getD .start⟩

/-- The token at the front. -/
def current (feed : Feed) : Token :=
  feed.ahead.headD (Token.endAt feed.finish)

/-- The token behind the one at the front. -/
def peek (feed : Feed) : Token :=
  feed.ahead.tail.headD (Token.endAt feed.finish)

/-- Drop the token at the front. -/
def advance (feed : Feed) : Feed :=
  { feed with ahead := feed.ahead.tail }

/-- The next `count` tokens. -/
def take : Nat → Feed → List Token
  | 0, _ => []
  | count + 1, feed => feed.current :: take count feed.advance

/-- Drop tokens until the one at the front is of a kind where reading may go on. The end of
the input is always such a kind. -/
def skipTo (stops : List Kind) (feed : Feed) : Feed :=
  { feed with ahead := feed.ahead.dropWhile fun token =>
      token.kind != .endOfInput && !stops.contains token.kind }

/-- Leave only the last of the semicolons that follow the first token of a list in front. -/
def dropSemicolons : List Token → List Token
  | front :: next :: rest =>
    if next.kind = .semicolon then dropSemicolons (next :: rest) else front :: next :: rest
  | tokens => tokens

/-- Advance for as long as a semicolon follows the token at the front. -/
def skipSemicolons (feed : Feed) : Feed :=
  { feed with ahead := dropSemicolons feed.ahead }

/-! ## Fronts -/

theorem ahead_eq_cons {feed : Feed} (h : feed.ahead ≠ []) :
    feed.ahead = feed.current :: feed.advance.ahead := by
  obtain ⟨ahead, finish⟩ := feed
  cases ahead with
  | nil => exact absurd rfl h
  | cons token rest => rfl

/-- A token at the front that is no end of the input is one of the list. -/
theorem ahead_ne_nil {feed : Feed} (h : feed.current.kind ≠ .endOfInput) : feed.ahead ≠ [] := by
  intro hnil
  rw [current, hnil] at h
  exact h rfl

end Feed

end MonkeyLanguage
