-- SUMMARY: A source text is read without errors exactly if the grammar derives its tokens.
import MonkeyLanguage.Proofs.Grammar.Complete
import MonkeyLanguage.Proofs.Grammar.Sound
import MonkeyLanguage.Proofs.Scanning.Numeral

/-!
# Acceptance

The parser accepts a source text if it reports no errors. It accepts exactly the texts whose
tokens the grammar derives, and then the tree it returns is derived from all of these tokens,
in their order.
-/

namespace MonkeyLanguage

/-- A derivation asks for the numbers of its own integer tokens only. -/
theorem Derives.mono {numeral other : String → Int → Prop} {ts : List Token} {phrase : Phrase}
    (h : Derives numeral ts phrase)
    (himp : ∀ token ∈ ts, token.kind = .integer → ∀ value,
      numeral token.literal value → other token.literal value) :
    Derives other ts phrase := by
  induction h with
  | identifier hkind => exact .identifier hkind
  | integer hkind hvalue => exact .integer hkind (himp _ List.mem_cons_self hkind _ hvalue)
  | string hkind => exact .string hkind
  | trueWord hkind => exact .trueWord hkind
  | falseWord hkind => exact .falseWord hkind
  | prefixed hoperator _ ih => exact .prefixed hoperator (ih fun t ht => himp t (by simp [ht]))
  | grouped hopen _ hclose ih => exact .grouped hopen (ih fun t ht => himp t (by simp [ht])) hclose
  | conditional hword hopen _ hclose _ ihCondition ihBlock =>
      exact .conditional hword hopen (ihCondition fun t ht => himp t (by simp [ht])) hclose
        (ihBlock fun t ht => himp t (by simp [ht]))
  | choice hword hopen _ hclose _ helse _ ihCondition ihBlock ihOther =>
      exact .choice hword hopen (ihCondition fun t ht => himp t (by simp [ht])) hclose
        (ihBlock fun t ht => himp t (by simp [ht])) helse
        (ihOther fun t ht => himp t (by simp [ht]))
  | function hword hopen _ hclose _ ihParameters ihBody =>
      exact .function hword hopen (ihParameters fun t ht => himp t (by simp [ht])) hclose
        (ihBody fun t ht => himp t (by simp [ht]))
  | array hopen _ hclose ih => exact .array hopen (ih fun t ht => himp t (by simp [ht])) hclose
  | hash hopen _ hclose ih => exact .hash hopen (ih fun t ht => himp t (by simp [ht])) hclose
  | binary _ hoperator _ ihLeft ihRight =>
      exact .binary (ihLeft fun t ht => himp t (by simp [ht])) hoperator
        (ihRight fun t ht => himp t (by simp [ht]))
  | call _ hopen _ hclose ihCallee ihArguments =>
      exact .call (ihCallee fun t ht => himp t (by simp [ht])) hopen
        (ihArguments fun t ht => himp t (by simp [ht])) hclose
  | index _ hopen _ hclose ihTarget ihKey =>
      exact .index (ihTarget fun t ht => himp t (by simp [ht])) hopen
        (ihKey fun t ht => himp t (by simp [ht])) hclose
  | property _ hperiod hname ih =>
      exact .property (ih fun t ht => himp t (by simp [ht])) hperiod hname
  | parameter hkind => exact .parameter hkind
  | pair _ hcolon _ ihKey ihValue =>
      exact .pair (ihKey fun t ht => himp t (by simp [ht])) hcolon
        (ihValue fun t ht => himp t (by simp [ht]))
  | noItems => exact .noItems
  | lastItem _ ih => exact .lastItem (ih himp)
  | moreItems _ hcomma _ ihItem ihItems =>
      exact .moreItems (ihItem fun t ht => himp t (by simp [ht])) hcomma
        (ihItems fun t ht => himp t (by simp [ht]))
  | letStatement hword hname hsign _ ih =>
      exact .letStatement hword hname hsign (ih fun t ht => himp t (by simp [ht]))
  | returnStatement hword _ ih =>
      exact .returnStatement hword (ih fun t ht => himp t (by simp [ht]))
  | expressionStatement _ ih => exact .expressionStatement (ih himp)
  | noStatements => exact .noStatements
  | moreStatements _ hall _ hnone ihStatement ihStatements =>
      exact .moreStatements (ihStatement fun t ht => himp t (by simp [ht])) hall
        (ihStatements fun t ht => himp t (by simp [ht])) hnone
  | block hopen _ hclose ih => exact .block hopen (ih fun t ht => himp t (by simp [ht])) hclose

/-- No derivation reaches the end of the input. -/
theorem Derives.ne_endOfInput {numeral : String → Int → Prop} {ts : List Token} {phrase : Phrase}
    (h : Derives numeral ts phrase) : ∀ token ∈ ts, token.kind ≠ .endOfInput := by
  have hprefixed {kind : Kind} (h : kind ∈ Kind.prefixOperators) : kind ≠ .endOfInput := by
    rintro rfl
    simp [Kind.prefixOperators] at h
  have hjoining {kind : Kind} (h : kind ∈ Kind.infixOperators) : kind ≠ .endOfInput := by
    rintro rfl
    simp [Kind.infixOperators] at h
  induction h with
  | prefixed hoperator _ ih => simpa using ⟨hprefixed hoperator, ih⟩
  | binary _ hoperator _ ihLeft ihRight => grind
  | _ => grind

/-- The integer tokens of a derivation are numerals. -/
theorem Derives.exists_value {numeral : String → Int → Prop} {ts : List Token} {phrase : Phrase}
    (h : Derives numeral ts phrase) :
    ∀ token ∈ ts, token.kind = .integer → ∃ value, numeral token.literal value := by
  have hprefixed {kind : Kind} (h : kind ∈ Kind.prefixOperators) : kind ≠ .integer := by
    rintro rfl
    simp [Kind.prefixOperators] at h
  have hjoining {kind : Kind} (h : kind ∈ Kind.infixOperators) : kind ≠ .integer := by
    rintro rfl
    simp [Kind.infixOperators] at h
  induction h with
  | _ => grind

/-- On tokens that the scanner can make, the numbers that are read are those that are written. -/
theorem derives_reads_iff {limit : Numeral.DigitLimit} {ts : List Token} {phrase : Phrase}
    (h : ∀ token ∈ ts, token.Lexical) :
    Derives (Parser.reads limit) ts phrase ↔ Derives (Numeral.Written limit) ts phrase := by
  have hiff : ∀ token ∈ ts, token.kind = .integer → ∀ value,
      Parser.reads limit token.literal value ↔ Numeral.Written limit token.literal value := by
    intro token hmem hkind value
    have hadmits := h token hmem
    rw [Token.Lexical, hkind] at hadmits
    exact Numeral.reads_iff_written hadmits
  exact ⟨fun hderives => hderives.mono fun t ht hkind v => (hiff t ht hkind v).1,
    fun hderives => hderives.mono fun t ht hkind v => (hiff t ht hkind v).2⟩

/-- A program without errors is one that its statements yield. -/
theorem Parse.errors_eq_nil_iff {limit : Numeral.DigitLimit} {feed : Feed} :
    (Parse.ofFeed feed limit).errors = [] ↔
      ∃ nodes rest, Parser.Yields (Parser.programStatements (Parser.expression limit (feed.ahead.length + 1)))
        feed nodes rest := by
  obtain ⟨⟨value?, errors, rest⟩, hreply, hparse, -⟩ :=
    Parse.ofFeed_reply limit (T := fun _ => True) fun token (_ : token ∈ feed.ahead) => trivial
  rw [hparse]
  constructor
  · rintro rfl
    cases value? with
    | none => exact absurd rfl (Parser.honest_programStatements feed _ hreply rfl)
    | some nodes => exact ⟨nodes, rest, hreply⟩
  · rintro ⟨nodes, last, hyields⟩
    have heq := Option.some.inj (hreply.symm.trans hyields)
    exact congrArg Reply.errors heq

theorem Parse.program_of_yields {limit : Numeral.DigitLimit} {feed rest : Feed}
    {nodes : List Node}
    (h : Parser.Yields (Parser.programStatements (Parser.expression limit (feed.ahead.length + 1))) feed nodes
      rest) :
    Parse.ofFeed feed limit = ⟨.program feed.current nodes, []⟩ := by
  rw [Parser.Yields] at h
  simp [Parse.ofFeed, h]

/-- A feed of the tokens of a sequence of statements is read as these statements. -/
theorem Parse.ofFeed_of_sequence {limit : Numeral.DigitLimit} {feed : Feed} {ts : List Token}
    {last : Position} {nodes : List Node} (h : Parser.Sequence limit ts nodes)
    (hfeed : feed = ⟨ts ++ [Token.endAt last], last⟩) :
    Parse.ofFeed feed limit = ⟨.program feed.current nodes, []⟩ := by
  let rest : Feed := ⟨[Token.endAt last], last⟩
  have hsplit : feed.ahead = ts ++ rest.ahead := by rw [hfeed]
  have hfinish : rest.finish = feed.finish := by rw [hfeed]
  exact Parse.program_of_yields
    (h.yields_programStatements hsplit hfinish rfl (Nat.lt_succ_self _))

/-- The feed of a source text: tokens that the scanner can make, and one end token. -/
theorem Feed.ofSource_eq (source : String) :
    ∃ ts last, Feed.ofSource source = ⟨ts ++ [Token.endAt last], last⟩ ∧
      (Token.scan source).dropLast = ts ∧ ∀ token ∈ ts, token.Lexical ∧ token.kind ≠ .endOfInput := by
  obtain ⟨ts, last, hscan, -, hall⟩ := Token.scan_eq source
  exact ⟨ts, last, by simp [Feed.ofSource, hscan, Token.endAt], by simp [hscan], hall⟩

/-- A feed that is read is read up to its first end token, and no further. -/
theorem Parser.derives_of_yields {limit : Numeral.DigitLimit} {depth : Nat} {feed rest : Feed}
    {ts : List Token} {last : Position} {nodes : List Node}
    (h : Parser.Yields (Parser.programStatements (Parser.expression limit depth)) feed nodes rest)
    (hfeed : feed = ⟨ts ++ [Token.endAt last], last⟩)
    (hall : ∀ token ∈ ts, token.kind ≠ .endOfInput) :
    Derives (Parser.reads limit) ts (.statements nodes) := by
  obtain ⟨us, hsplit, hend, hderives⟩ := Parser.programStatements_sound h
  rw [hfeed] at hsplit
  suffices heq : us = ts from heq ▸ hderives
  -- Both are the tokens before the first end token.
  have hbefore := congrArg (List.takeWhile fun token => token.kind ≠ .endOfInput) hsplit
  rw [List.takeWhile_append_of_pos (by simpa using hall),
    List.takeWhile_append_of_pos (by simpa using hderives.ne_endOfInput)] at hbefore
  have hrest : rest.ahead.takeWhile (fun token => token.kind ≠ .endOfInput) = [] := by
    obtain ⟨ahead, finish⟩ := rest
    cases ahead with
    | nil => rfl
    | cons token ahead => simpa [Feed.current] using hend
  rw [hrest] at hbefore
  simpa [Token.endAt] using hbefore.symm

/-- A source text that is read is read to its end, and no further. -/
theorem Parse.derives_of_yields {source : String} {limit : Numeral.DigitLimit} {depth : Nat}
    {nodes : List Node} {rest : Feed}
    (h : Parser.Yields (Parser.programStatements (Parser.expression limit depth))
      (Feed.ofSource source) nodes rest) :
    Derives (Numeral.Written limit) (Token.scan source).dropLast (.statements nodes) := by
  obtain ⟨ts, last, hfeed, hscan, hall⟩ := Feed.ofSource_eq source
  rw [hscan]
  exact (derives_reads_iff fun t ht => (hall t ht).1).1
    (Parser.derives_of_yields h hfeed fun t ht => (hall t ht).2)

/-- The parser reports no errors exactly if the grammar derives the tokens of the source text. If
it reports none, the tree that it returns is one that the grammar derives from these tokens. -/
theorem Parse.accepts_iff_derives (source : String) (limit : Numeral.DigitLimit) :
    ((Parse.ofSource source limit).errors = [] ↔
      ∃ nodes, Derives (Numeral.Written limit) (Token.scan source).dropLast (.statements nodes)) ∧
    ((Parse.ofSource source limit).errors = [] →
      ∃ nodes, (Parse.ofSource source limit).program = .program (Feed.ofSource source).current nodes ∧
        Derives (Numeral.Written limit) (Token.scan source).dropLast (.statements nodes)) := by
  have hsound (herrors : (Parse.ofSource source limit).errors = []) :
      ∃ nodes, (Parse.ofSource source limit).program = .program (Feed.ofSource source).current nodes ∧
        Derives (Numeral.Written limit) (Token.scan source).dropLast (.statements nodes) := by
    obtain ⟨nodes, rest, hyields⟩ := Parse.errors_eq_nil_iff.1 herrors
    refine ⟨nodes, ?_, Parse.derives_of_yields hyields⟩
    rw [Parse.ofSource, Parse.program_of_yields hyields]
  refine ⟨⟨fun herrors => ?_, ?_⟩, hsound⟩
  · obtain ⟨nodes, -, hderives⟩ := hsound herrors
    exact ⟨nodes, hderives⟩
  · rintro ⟨nodes, hderives⟩
    obtain ⟨ts, last, hfeed, hscan, hall⟩ := Feed.ofSource_eq source
    rw [hscan, ← derives_reads_iff fun t ht => (hall t ht).1] at hderives
    let rest : Feed := ⟨[Token.endAt last], last⟩
    have hsplit : (Feed.ofSource source).ahead = ts ++ rest.ahead := by rw [hfeed]
    have hfinish : rest.finish = (Feed.ofSource source).finish := by rw [hfeed]
    obtain ⟨others, hyields⟩ := Parser.programStatements_complete hderives hsplit hfinish rfl
      (Nat.lt_succ_self _)
    exact Parse.errors_eq_nil_iff.2 ⟨others, rest, hyields⟩

end MonkeyLanguage
