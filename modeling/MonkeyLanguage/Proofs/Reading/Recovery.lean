-- SUMMARY: Statements before a semicolon are read, or skipped, whatever comes behind it.
import MonkeyLanguage.Proofs.Reading.Tandem

/-!
# Recovery

A broken statement is skipped up to a semicolon, and reading goes on behind it. Before that
semicolon nothing is seen of what lies behind, as long as no block starts there: feeds that share
the tokens up to a semicolon are in tandem, however many statements are read or skipped on the way.
-/

namespace MonkeyLanguage

/-! ## Up to a semicolon -/

section

variable {semicolon : Token} {us : List Token}

theorem Feed.dropSemicolons_append (hsemicolon : semicolon.kind = .semicolon)
    (hus : ∀ next ∈ us.head?, next.kind ≠ .semicolon) {ts : List Token} (hts : ts ≠ []) :
    ∃ rest, rest <:+ ts ∧ dropSemicolons (ts ++ [semicolon]) = rest ++ [semicolon] ∧
      dropSemicolons (ts ++ semicolon :: us) = rest ++ semicolon :: us := by
  induction ts with
  | nil => exact absurd rfl hts
  | cons front ts ih =>
      cases ts with
      | nil =>
          have hlast : dropSemicolons (semicolon :: us) = semicolon :: us := by
            cases us with
            | nil => rfl
            | cons next us => simp [dropSemicolons, hus next rfl]
          exact ⟨[], List.nil_suffix, by simp [dropSemicolons, hsemicolon],
            by simp [dropSemicolons, hsemicolon, hlast]⟩
      | cons next ts =>
          by_cases hkind : next.kind = .semicolon
          · obtain ⟨rest, hrest, hshort, hlong⟩ := ih (List.cons_ne_nil _ _)
            exact ⟨rest, hrest.trans (List.suffix_cons _ _), by simpa [dropSemicolons, hkind],
              by simpa [dropSemicolons, hkind]⟩
          · exact ⟨_, List.suffix_refl _, by simp [dropSemicolons, hkind],
              by simp [dropSemicolons, hkind]⟩

theorem Feed.eq_of_ahead {feed other : Feed} (h : feed.ahead = other.ahead)
    (hfinish : feed.finish = other.finish) : feed = other := by
  cases feed
  cases other
  simp_all

/-- Where nothing else stops it, skipping goes to the first semicolon. -/
theorem Feed.ahead_skipTo {stops : List Kind} (hstops : .semicolon ∈ stops)
    (hsemicolon : semicolon.kind = .semicolon) {feed : Feed} {ts : List Token}
    (hall : ∀ token ∈ ts, token.kind ≠ .endOfInput ∧ (token.kind ∈ stops → token.kind = .semicolon))
    (h : feed.ahead = ts ++ semicolon :: us) :
    (feed.skipTo stops).ahead = ts.dropWhile (·.kind != .semicolon) ++ semicolon :: us := by
  simp only [skipTo, h]
  clear h
  induction ts with
  | nil => simp [hsemicolon, hstops]
  | cons front ts ih =>
      obtain ⟨hfront, hrest⟩ := List.forall_mem_cons.1 hall
      by_cases hkind : front.kind = .semicolon
      · simp [hkind, hstops]
      · have hnot : front.kind ∉ stops := fun hmem => hkind (hfront.2 hmem)
        simpa [hkind, hfront.1, hnot] using ih hrest

/-- Two feeds that share the tokens up to a semicolon, behind which the first one ends. -/
def Tandem.upTo {T : Token → Prop} (hT : ∀ token, T token → token.kind ≠ .leftBrace)
    (hsemicolon : semicolon.kind = .semicolon) (hus : ∀ next ∈ us.head?, next.kind ≠ .semicolon) :
    Tandem where
  At feed feed' := ∃ ts : List Token, (∀ token ∈ ts, T token) ∧
    feed.ahead = ts ++ [semicolon] ∧ feed'.ahead = ts ++ semicolon :: us
  Before feed feed' := ∃ ts : List Token, ts ≠ [] ∧ (∀ token ∈ ts, T token) ∧
    feed.ahead = ts ++ [semicolon] ∧ feed'.ahead = ts ++ semicolon :: us
  at_of_before := fun ⟨ts, _, h⟩ => ⟨ts, h⟩
  current_kind := by
    rintro feed feed' ⟨ts, -, hshort, hlong⟩
    cases ts <;> simp [Feed.current, hshort, hlong]
  current_eq := by
    rintro feed feed' ⟨ts, -, hshort, hlong⟩ -
    cases ts <;> simp [Feed.current, hshort, hlong]
  peek_kind := by
    rintro feed feed' ⟨_ | ⟨front, ts⟩, hne, -, hshort, hlong⟩
    · exact absurd rfl hne
    · cases ts <;> simp [Feed.peek, hshort, hlong]
  at_advance := by
    rintro feed feed' ⟨_ | ⟨front, ts⟩, hne, hall, hshort, hlong⟩
    · exact absurd rfl hne
    · exact ⟨ts, fun token hmem => hall token (List.mem_cons_of_mem _ hmem),
        by simp [Feed.advance, hshort], by simp [Feed.advance, hlong]⟩
  at_skipSemicolons := by
    rintro feed feed' ⟨ts, hne, hall, hshort, hlong⟩
    obtain ⟨rest, hsuffix, hrest, hrest'⟩ := Feed.dropSemicolons_append hsemicolon hus hne
    exact ⟨rest, fun token hmem => hall token (hsuffix.subset hmem),
      by rw [Feed.skipSemicolons, hshort, hrest], by rw [Feed.skipSemicolons, hlong, hrest']⟩
  before_of_kind := by
    rintro feed feed' ⟨ts, hall, hshort, hlong⟩ hkind
    refine ⟨ts, ?_, hall, hshort, hlong⟩
    rintro rfl
    exact hkind (by simp [Feed.current, hshort, hsemicolon])
  length_le := by
    rintro feed feed' ⟨ts, -, hshort, hlong⟩
    simp [hshort, hlong]
  no_block_or_onward := by
    refine .inl ?_
    rintro feed feed' ⟨_ | ⟨front, ts⟩, hall, hshort, -⟩
    · simp [Feed.current, hshort, hsemicolon]
    · simpa [Feed.current, hshort] using hT front (hall front List.mem_cons_self)

end

/-- Where the next statement is looked for: behind the one that was read, or from a semicolon on. -/
def Reply.landing (reply : Reply Node) : Feed :=
  if reply.value?.isSome then reply.rest else reply.rest.skipTo [.semicolon]

namespace Parser

variable {α : Type}

/-! ## Rounds -/

/-- Rounds of a step, one after the other, with what they yield and the errors that they meet. -/
inductive Rounds (step : Parser (Option (List α))) :
    Feed → List α → List ParseError → Feed → Prop where
  | none {feed : Feed} : Rounds step feed [] [] feed
  | more {feed mid last : Feed} {items others : List α} {errors rest : List ParseError} :
      step feed = some ⟨some (some items), errors, mid⟩ →
      mid.ahead.length < feed.ahead.length → Rounds step mid others rest last →
      Rounds step feed (items ++ others) (errors ++ rest) last

/-- What is gathered after some rounds comes behind what they yield. -/
theorem Rounds.gather {step : Parser (Option (List α))} {feed mid last : Feed}
    {items : List α} {errors rest : List ParseError} {others? : Option (List α)}
    (h : Rounds step feed items errors mid) (hlast : gather step mid = some ⟨others?, rest, last⟩) :
    Parser.gather step feed = some ⟨others?.map (items ++ ·), errors ++ rest, last⟩ := by
  induction h with
  | none =>
      rw [hlast]
      cases others? <;> rfl
  | @more feed mid _ items others errors rest hstep hless _ ih =>
      have hothers := gatherUpTo_mono hless (ih hlast)
      show Bind.bind step _ feed = _
      simp only [Bind.bind, andThen, hstep, hothers]
      cases others? <;> simp [Reply.after, pure, succeed]

/-! ## Parsers that do not fail -/

variable {β : Type}

/-- If there is a reply, then it has a value. -/
def Steady (parser : Parser α) : Prop :=
  ∀ feed reply, parser feed = some reply → reply.value?.isSome

theorem steady_pure (a : α) : Steady (pure a : Parser α) := by
  rintro feed reply h
  obtain rfl : _ = reply := Option.some.inj h
  rfl

theorem steady_current : Steady current := by
  rintro feed reply h
  obtain rfl : _ = reply := Option.some.inj h
  rfl

theorem steady_move (step : Feed → Feed) : Steady (move step) := by
  rintro feed reply h
  obtain rfl : _ = reply := Option.some.inj h
  rfl

theorem steady_attempt (parser : Parser α) : Steady (attempt parser) := by
  rintro feed reply h
  obtain ⟨_, -, rfl⟩ := Option.map_eq_some_iff.1 h
  rfl

theorem Steady.bind {parser : Parser α} {next : α → Parser β} (h : Steady parser)
    (hnext : ∀ a, Steady (next a)) : Steady (parser >>= next) := by
  intro feed reply hreply
  simp only [Bind.bind, andThen] at hreply
  rcases hfirst : parser feed with _ | ⟨_ | a, errors, rest⟩
  · simp [hfirst] at hreply
  · exact absurd (h feed _ hfirst) (by simp)
  · obtain ⟨last, hlast, rfl⟩ : ∃ last, next a rest = some last ∧ last.after errors = reply := by
      simpa [hfirst] using hreply
    exact hnext a rest last hlast

theorem Steady.gather {step : Parser (Option (List α))} (h : Steady step) :
    Steady (Parser.gather step) := by
  have hrounds (bound : Nat) : Steady (gatherUpTo step bound) := by
    induction bound with
    | zero => exact fun feed reply h => by simp [gatherUpTo, exhausted] at h
    | succ bound ih =>
        refine h.bind fun items? => ?_
        cases items? with
        | none => exact steady_pure _
        | some items => exact ih.bind fun _ => steady_pure _
  exact fun feed => hrounds _ feed

theorem steady_programStep {expression : ExpressionParser} : Steady (programStep expression) := by
  refine steady_current.bind fun token => ?_
  split
  · exact steady_pure _
  · refine (steady_attempt _).bind fun node? => ?_
    cases node? with
    | some node => exact (steady_move _).bind fun _ => steady_pure _
    | none => exact (steady_move _).bind fun _ => (steady_move _).bind fun _ => steady_pure _

/-! ## Steps that recover -/

variable {T : Token → Prop} {semicolon : Token} {us : List Token}

/-- Where the tokens up to a semicolon are as they should be, the step reads a statement or skips
it. -/
structure Recovers (T : Token → Prop)
    (step : ExpressionParser → Parser (Option (List Node))) : Prop where
  step_eq : ∀ {expression : ExpressionParser} {feed : Feed} {reply : Reply Node}
    {ts rest us : List Token} {semicolon : Token}, semicolon.kind = .semicolon →
    (∀ token ∈ ts, T token) → (∀ token ∈ rest, T token) → feed.ahead = ts ++ semicolon :: us →
    reply.rest.ahead = rest ++ semicolon :: us → statement expression feed = some reply →
    step expression feed =
      some ⟨some (some reply.value?.toList), reply.errors, reply.landing.advance⟩

theorem kind_current_of_ahead {feed : Feed} {ts : List Token} {kind : Kind}
    (hT : ∀ token, T token → token.kind ≠ kind) (hkind : kind ≠ .semicolon)
    (hsemicolon : semicolon.kind = .semicolon) (hall : ∀ token ∈ ts, T token)
    (h : feed.ahead = ts ++ semicolon :: us) : feed.current.kind ≠ kind := by
  cases ts with
  | nil => simpa [Feed.current, h, hsemicolon] using hkind.symm
  | cons front ts => simpa [Feed.current, h] using hT front (hall front List.mem_cons_self)

theorem programStep_recovers (hT : ∀ token, T token → token.kind ≠ .endOfInput) :
    Recovers T programStep where
  step_eq := by
    intro expression feed ⟨value?, errors, rest⟩ ts _ us semicolon hsemicolon hall _ hsplit _ hreply
    have hend := kind_current_of_ahead hT (by decide) hsemicolon hall hsplit
    cases value? <;>
      simp [programStep, Bind.bind, andThen, current, hend, attempt, hreply, Reply.after, move,
        advance, pure, succeed, Reply.landing]

theorem blockStep_recovers (hT : ∀ token, T token → token.kind ≠ .endOfInput)
    (hbrace : ∀ token, T token → token.kind ≠ .rightBrace) : Recovers T blockStep where
  step_eq := by
    intro expression feed ⟨value?, errors, rest⟩ ts others us semicolon hsemicolon hall hothers
      hsplit hrest hreply
    have hend := kind_current_of_ahead hT (by decide) hsemicolon hall hsplit
    have hclose := kind_current_of_ahead hbrace (by decide) hsemicolon hall hsplit
    -- No brace comes before the semicolon, so skipping stops at the same place.
    have hskip : rest.skipTo [.semicolon, .rightBrace] = rest.skipTo [.semicolon] := by
      refine Feed.eq_of_ahead ?_ rfl
      have hnone (token : Token) (hmem : token ∈ others) :
          token.kind ∈ [Kind.semicolon, .rightBrace] → token.kind = .semicolon := by
        simp [hbrace token (hothers token hmem)]
      rw [Feed.ahead_skipTo (by simp) hsemicolon (fun t ht => ⟨hT t (hothers t ht), hnone t ht⟩)
          hrest,
        Feed.ahead_skipTo (by simp) hsemicolon (fun t ht => ⟨hT t (hothers t ht), by simp⟩) hrest]
    have hstop : (rest.skipTo [.semicolon]).current.kind ≠ .rightBrace := by
      refine kind_current_of_ahead hbrace (by decide) hsemicolon ?_
        (Feed.ahead_skipTo (by simp) hsemicolon (fun t ht => ⟨hT t (hothers t ht), by simp⟩) hrest)
      exact fun token hmem => hothers token ((List.dropWhile_suffix _).subset hmem)
    cases value? <;>
      simp [blockStep, Bind.bind, andThen, current, attempt, hreply, Reply.after, move, advance,
        pure, succeed, Reply.landing, hskip, hstop]

section

variable (hT : ∀ token, T token → token.kind ≠ .leftBrace)
  (hend : ∀ token, T token → token.kind ≠ .endOfInput) (hsemicolon : semicolon.kind = .semicolon)
  (limit : Numeral.DigitLimit) {ts : List Token} (hall : ∀ token ∈ ts, T token)

include hT hend hsemicolon hall

/-- One round. It lands at or before the semicolon, and always at the same place. -/
theorem exists_round :
    ∃ nodes errors landed, landed.length ≤ ts.length ∧ (∀ token ∈ landed, T token) ∧
      ∀ {step : ExpressionParser → Parser (Option (List Node))} {us : List Token}
        {finish : Position} {depth : Nat}, Recovers T step →
        (∀ next ∈ us.head?, next.kind ≠ .semicolon) → (ts ++ semicolon :: us).length < depth →
        step (expression limit depth) ⟨ts ++ semicolon :: us, finish⟩ =
          some ⟨some (some nodes), errors, ⟨(landed ++ semicolon :: us).tail, finish⟩⟩ := by
  have hfront {us : List Token} {feed : Feed} (h : feed.ahead = ts ++ semicolon :: us) :
      feed.current.kind ≠ .endOfInput := kind_current_of_ahead hend (by decide) hsemicolon hall h
  have hreads {depth : Nat} {us : List Token} {feed : Feed} (h : feed.ahead.length < depth)
      (hsplit : feed.ahead = ts ++ semicolon :: us) :=
    statement_delivers (T := fun _ => True) (expression_delivers limit _ depth) feed
      ⟨⟨h, fun _ _ => trivial⟩, hfront hsplit⟩
  -- What the statement is shows already where nothing comes behind the semicolon.
  let alone : Feed := ⟨ts ++ [semicolon], .start⟩
  obtain ⟨reply, hreply, hbehind, -⟩ := hreads (Nat.lt_succ_self alone.ahead.length) rfl
  have hkeeps (us : List Token) (hus : ∀ next ∈ us.head?, next.kind ≠ .semicolon) {depth : Nat}
      (hdepth : (ts ++ semicolon :: us).length < depth) (finish : Position) :=
    keeps_statement (keeps_expression (.upTo hT hsemicolon hus) limit
      (show alone.ahead.length + 1 ≤ depth by simp [alone] at hdepth ⊢; omega))
      alone ⟨ts ++ semicolon :: us, finish⟩ ⟨⟨ts, hall, rfl, rfl⟩, hfront rfl⟩ reply hreply
  obtain ⟨_, -, ⟨rest, hrestAll, hrest, -⟩, -⟩ :=
    hkeeps [] (by simp) (Nat.lt_succ_self _) .start
  have hlength : rest.length ≤ ts.length := by
    simpa [alone, hrest] using hbehind.suffix.length_le
  refine ⟨reply.value?.toList, reply.errors,
    if reply.value?.isSome then rest else rest.dropWhile (·.kind != .semicolon), ?_, ?_, ?_⟩
  · split
    · exact hlength
    · exact Nat.le_trans (List.dropWhile_suffix _).length_le hlength
  · split
    · exact hrestAll
    · exact fun token hmem => hrestAll token ((List.dropWhile_suffix _).subset hmem)
  · intro step us finish depth hstep hus hdepth
    obtain ⟨rest', hreply', ⟨other, -, hother, hrest'⟩, -⟩ := hkeeps us hus hdepth finish
    obtain rfl : rest = other := List.append_cancel_right (hrest.symm.trans hother)
    have hfinish : rest'.finish = finish := by
      have hlong : (Feed.mk (ts ++ semicolon :: us) finish).ahead.length < depth := hdepth
      obtain ⟨_, heq, hfollows, -⟩ := hreads hlong rfl
      obtain rfl := Option.some.inj (hreply'.symm.trans heq)
      exact hfollows.finish
    rw [hstep.step_eq hsemicolon hall hrestAll rfl hrest' hreply']
    congr 2
    refine Feed.eq_of_ahead ?_ ?_
    · simp only [Reply.landing]
      split
      · simp [Feed.advance, hrest']
      · rw [Feed.advance, Feed.ahead_skipTo (by simp) hsemicolon
          (fun t ht => ⟨hend t (hrestAll t ht), by simp⟩) hrest']
    · simp only [Reply.landing]
      split <;> exact hfinish

/-- Before a semicolon, and as long as no block starts there, it is settled which statements are
read and which errors are met. It makes no difference what comes behind, whether the statements are
those of a program or of a block, and how deep expressions may nest. -/
theorem exists_rounds :
    ∃ nodes errors, ∀ {step : ExpressionParser → Parser (Option (List Node))}, Recovers T step →
      ∀ us finish depth, (∀ next ∈ us.head?, next.kind ≠ .semicolon) →
      (ts ++ semicolon :: us).length < depth →
      Rounds (step (expression limit depth)) ⟨ts ++ semicolon :: us, finish⟩ nodes errors
        ⟨us, finish⟩ := by
  induction hlength : ts.length using Nat.strongRecOn generalizing ts with
  | ind length ih =>
      obtain ⟨nodes, errors, landed, hless, hlanded, hround⟩ :=
        exists_round hT hend hsemicolon limit hall
      cases landed with
      | nil =>
          refine ⟨nodes ++ [], errors ++ [], fun hstep us finish depth hus hdepth => ?_⟩
          exact .more (hround hstep hus hdepth) (by simp; omega) .none
      | cons front landed =>
          obtain ⟨others, more, hothers⟩ := ih landed.length (by simp at hless; omega)
            (fun token hmem => hlanded token (List.mem_cons_of_mem _ hmem)) rfl
          refine ⟨nodes ++ others, errors ++ more, fun hstep us finish depth hus hdepth => ?_⟩
          refine .more (hround hstep hus hdepth) ?_ (hothers hstep us finish depth hus ?_)
          · simp at hless ⊢
            omega
          · simp at hless hdepth ⊢
            omega

end

end Parser

/-- Whatever the tokens are, a program is read from them. -/
theorem Parse.exists_statements (limit : Numeral.DigitLimit) (feed : Feed) :
    ∃ statements errors rest,
      Parser.programStatements (Parser.expression limit (feed.ahead.length + 1)) feed =
        some ⟨some statements, errors, rest⟩ ∧
      Parse.ofFeed feed limit = ⟨.program feed.current statements, errors⟩ := by
  obtain ⟨⟨value?, errors, rest⟩, hreply, hparse, -⟩ :=
    ofFeed_reply limit (fun _ _ => trivial : ∀ token ∈ feed.ahead, True)
  obtain ⟨statements, rfl⟩ : ∃ statements, value? = some statements :=
    Option.isSome_iff_exists.1 (Parser.steady_programStep.gather _ _ hreply)
  exact ⟨statements, errors, rest, hreply, hparse⟩

end MonkeyLanguage
