-- SUMMARY: Parsers over token feeds, with recorded errors, failure and bounded loops.
import MonkeyLanguage.ParseError
import MonkeyLanguage.Token.Feed

/-!
# Parsers

A parser reads from the front of a feed. It either yields a value or fails; in
both cases it also says which errors it has met and what remains of the feed, so
that reading can go on after a failure.

A parser that repeats another one is given a bound on the number of rounds. Past
the bound it has no answer at all. The bounds in use are never reached, because
each round takes a token off the feed.
-/

namespace MonkeyLanguage

/-- What a parser has to say: its value unless it failed, the errors it met, and the
remaining feed. -/
structure Reply (α : Type) where
  value? : Option α
  errors : List ParseError
  rest : Feed

/-- The same reply, with the errors of an earlier parser in front. -/
def Reply.after {α : Type} (errors : List ParseError) (reply : Reply α) : Reply α :=
  { reply with errors := errors ++ reply.errors }

/-- A reader of tokens. It has no reply only if a bound on its rounds is too small. -/
def Parser (α : Type) : Type :=
  Feed → Option (Reply α)

namespace Parser

variable {α β : Type}

/-- Yield a value and read nothing. -/
def succeed (a : α) : Parser α :=
  fun feed => some ⟨some a, [], feed⟩

/-- Continue with the value of a parser, unless it failed. -/
def andThen (parser : Parser α) (next : α → Parser β) : Parser β :=
  fun feed =>
    match parser feed with
    | none => none
    | some ⟨none, errors, rest⟩ => some ⟨none, errors, rest⟩
    | some ⟨some a, errors, rest⟩ => (next a rest).map (Reply.after errors)

instance : Monad Parser where
  pure := succeed
  bind := andThen

/-- No reply: the bound on the rounds is used up. -/
def exhausted : Parser α :=
  fun _ => none

/-- Record an error and fail. -/
def fail (error : ParseError) : Parser α :=
  fun feed => some ⟨none, [error], feed⟩

/-- Record an error and go on. -/
def report (error : ParseError) : Parser Unit :=
  fun feed => some ⟨some (), [error], feed⟩

/-- Yield the value of a parser, or nothing if it failed. -/
def attempt (parser : Parser α) : Parser (Option α) :=
  fun feed => (parser feed).map fun reply => ⟨some reply.value?, reply.errors, reply.rest⟩

/-- The token at the front. -/
def current : Parser Token :=
  fun feed => some ⟨some feed.current, [], feed⟩

/-- The token behind the one at the front. -/
def peek : Parser Token :=
  fun feed => some ⟨some feed.peek, [], feed⟩

/-- Move the front of the feed. -/
def move (step : Feed → Feed) : Parser Unit :=
  fun feed => some ⟨some (), [], step feed⟩

/-- Drop the token at the front. -/
def advance : Parser Unit :=
  move Feed.advance

/-- Advance if a token of the wanted kind follows, and fail if not. -/
def expect (wanted : Kind) : Parser Unit := do
  let next ← peek
  if next.kind = wanted then advance else fail (.expected wanted next.kind)

/-- Repeat a step, at most `bound` times, until it says `none`, and put the lists that it
yields together. -/
def gatherUpTo (step : Parser (Option (List α))) : Nat → Parser (List α)
  | 0 => exhausted
  | bound + 1 => do
    match ← step with
    | none => pure []
    | some items =>
      let others ← gatherUpTo step bound
      pure (items ++ others)

/-- Repeat a step that takes at least one token off the feed until it says `none`. -/
def gather (step : Parser (Option (List α))) : Parser (List α) :=
  fun feed => gatherUpTo step (feed.ahead.length + 1) feed

/-- One more item of a list, behind a comma, or nothing where the closing token follows. -/
def listStep (closing : Kind) (item : Parser α) : Parser (Option (List α)) := do
  if (← peek).kind = .comma then
    advance
    advance
    pure (some [← item])
  else
    expect closing
    pure none

/-- One or more items with commas between them, up to a closing token, or only the closing token.
The opening token is at the front before, and the closing one after. -/
def listUpTo (closing : Kind) (item : Parser α) : Parser (List α) := do
  if (← peek).kind = closing then
    advance
    pure []
  else
    advance
    let first ← item
    let others ← gather (listStep closing item)
    pure (first :: others)

end Parser

end MonkeyLanguage
