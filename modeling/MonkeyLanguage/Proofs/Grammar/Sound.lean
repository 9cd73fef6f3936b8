-- SUMMARY: What the parser reads without errors is derived by the grammar.
import MonkeyLanguage.Proofs.Reading.Made
import MonkeyLanguage.Proofs.Reading.Passes
import MonkeyLanguage.Proofs.Reading.Rules

/-!
# Readings are derivations

A parser that yields a value has passed a stretch of tokens, and the grammar derives from
that stretch the tree that was yielded.
-/

namespace MonkeyLanguage

/-- No expression is without tokens. -/
theorem Derives.ne_nil {numeral : String → Int → Prop} {ts : List Token} {node : Node}
    (h : Derives numeral ts (.expression node)) : ts ≠ [] := by
  cases h <;> simp

theorem Kind.not_mem_ambiguous {kind : Kind} (h : kind.bindingPower ≤ BindingPower.lowest) :
    kind ∉ Kind.ambiguous := by
  cases kind <;> simp_all [Kind.bindingPower, BindingPower.lowest, Kind.ambiguous]

namespace Parser

open Feed

/-- On a feed that starts with the right kind of token, the parser yields only what is derived
from the tokens that it passes. -/
def Sound (limit : Numeral.DigitLimit) (starts : Kind → Prop) (parser : Parser α)
    (phrase : α → Phrase) : Prop :=
  ∀ feed a rest, starts feed.current.kind → Yields parser feed a rest →
    ∃ ts, feed.Passes ts rest ∧ Derives (reads limit) ts (phrase a)

/-- The parser is a sound reader of expressions, and leaves nothing that binds tighter than the
power at which it reads. -/
def SoundExpression (limit : Numeral.DigitLimit) (expression : ExpressionParser) : Prop :=
  ∀ power, BindingPower.lowest ≤ power → ∀ feed node rest,
    Yields (expression power) feed node rest →
      ∃ ts, feed.Passes ts rest ∧ Derives (reads limit) ts (.expression node) ∧
        rest.advance.current.kind.bindingPower ≤ power

variable {limit : Numeral.DigitLimit} {expression : ExpressionParser}

theorem SoundExpression.lowest (he : SoundExpression limit expression) {feed rest : Feed}
    {node : Node} (h : Yields (expression BindingPower.lowest) feed node rest) :
    ∃ ts, feed.Passes ts rest ∧ Derives (reads limit) ts (.expression node) :=
  let ⟨ts, hpass, hderives, _⟩ := he _ (Nat.le_refl _) feed node rest h
  ⟨ts, hpass, hderives⟩

/-! ## Lists -/

section

variable {α : Type} {phrase : α → Phrase} {item : Parser α} {closing : Kind}

/-- The items behind the first one of a list, and the closing token. -/
theorem gatherUpTo_listStep_sound (hitem : Sound limit (fun _ => True) item phrase)
    (hclosing : closing ≠ .endOfInput) {bound : Nat} {feed rest : Feed} {first : α}
    {others : List α} {ts : List Token}
    (h : Yields (gatherUpTo (listStep closing item) bound) feed others rest)
    (hfirst : Derives (reads limit) ts (phrase first)) :
    ∃ us, feed.advance.Passes (us ++ [rest.current]) rest ∧ rest.current.kind = closing ∧
      Derives (reads limit) (ts ++ us) (.list ((first :: others).map phrase)) := by
  induction bound generalizing feed first others ts with
  | zero => exact absurd h not_yields_exhausted
  | succ bound ih =>
      rw [yields_gatherUpTo] at h
      simp only [yields_listStep] at h
      obtain ⟨hstop, rfl⟩ | ⟨front, mid, others, hmore, hothers, rfl⟩ := h
      · split at hstop
        case isTrue => simp at hstop
        case isFalse =>
          obtain ⟨hkind, rfl, -⟩ := hstop
          exact ⟨[], .ofKind hkind hclosing, hkind,
            by simpa using .lastItem hfirst⟩
      · split at hmore
        case isFalse => simp at hmore
        case isTrue hcomma =>
          obtain ⟨next, hnext, hfront⟩ := hmore
          obtain rfl : front = [next] := by simpa using hfront
          obtain ⟨ns, hpass, hderives⟩ := hitem _ _ _ trivial hnext
          obtain ⟨us, hrest, hkind, hlist⟩ := ih hothers hderives
          refine ⟨feed.advance.current :: ns ++ us, ?_, hkind, ?_⟩
          · simpa using (Passes.consKind hcomma (by decide) hpass).trans hrest
          · simpa using Derives.moreItems hfirst hcomma hlist

/-- A list with its closing token. -/
theorem listUpTo_sound (hitem : Sound limit (fun _ => True) item phrase)
    (hclosing : closing ≠ .endOfInput) {feed rest : Feed} {items : List α}
    (h : Yields (listUpTo closing item) feed items rest) :
    ∃ ts, feed.advance.Passes (ts ++ [rest.current]) rest ∧ rest.current.kind = closing ∧
      Derives (reads limit) ts (.list (items.map phrase)) := by
  rw [yields_listUpTo] at h
  split at h
  case isTrue hkind =>
    obtain ⟨rfl, rfl⟩ := h
    exact ⟨[], .ofKind hkind hclosing, hkind, .noItems⟩
  case isFalse hkind =>
    obtain ⟨first, mid, others, hfirst, hothers, rfl⟩ := h
    obtain ⟨ts, hpass, hderives⟩ := hitem _ _ _ trivial hfirst
    obtain ⟨us, hrest, hclose, hlist⟩ :=
      gatherUpTo_listStep_sound hitem hclosing hothers hderives
    exact ⟨ts ++ us, by simpa using hpass.trans hrest, hclose, hlist⟩

end

/-! ## Statements and blocks -/

section

variable (he : SoundExpression limit expression)
include he

/-- The expression that ends a statement, with the semicolons behind it. -/
theorem SoundExpression.lastOfStatement {feed mid : Feed} {value : Node}
    (h : Yields (expression BindingPower.lowest) feed value mid) :
    ∃ ts semicolons, feed.Passes (ts ++ semicolons) mid.skipSemicolons ∧
      Derives (reads limit) ts (.expression value) ∧
      (∀ token ∈ semicolons, token.kind = .semicolon) ∧
      (semicolons = [] →
        mid.skipSemicolons.advance.current.kind.bindingPower ≤ BindingPower.lowest) := by
  obtain ⟨ts, hpass, hderives, hpower⟩ := he _ (Nat.le_refl _) feed value mid h
  obtain ⟨semicolons, hall, hpasses, hnone⟩ := hpass.skipSemicolons
  exact ⟨ts, semicolons, hpasses, hderives, hall, fun hnil => by rw [hnone hnil]; exact hpower⟩

/-- A statement with the semicolons behind it. -/
theorem statement_sound {feed rest : Feed} {node : Node}
    (h : Yields (statement expression) feed node rest) :
    ∃ ts semicolons, feed.Passes (ts ++ semicolons) rest ∧
      Derives (reads limit) ts (.statement node) ∧
      (∀ token ∈ semicolons, token.kind = .semicolon) ∧
      (semicolons = [] → rest.advance.current.kind.bindingPower ≤ BindingPower.lowest) := by
  rw [yields_statement] at h
  split at h
  · next hword =>
      obtain ⟨hname, hsign, value, mid, hvalue, rfl, rfl⟩ := yields_letStatement.1 h
      obtain ⟨ts, semicolons, hpass, hderives, hall, hnone⟩ := he.lastOfStatement hvalue
      refine ⟨_, semicolons, ?_, .letStatement hword hname hsign hderives, hall, hnone⟩
      refine .consKind hword (by decide) (.consKind hname (by decide) ?_)
      exact .consKind hsign (by decide) hpass
  · next hword =>
      obtain ⟨value, mid, hvalue, rfl, rfl⟩ := yields_returnStatement.1 h
      obtain ⟨ts, semicolons, hpass, hderives, hall, hnone⟩ := he.lastOfStatement hvalue
      refine ⟨_, semicolons, ?_, .returnStatement hword hderives, hall, hnone⟩
      exact .consKind hword (by decide) hpass
  · obtain ⟨value, mid, hvalue, rfl, rfl⟩ := yields_expressionStatement.1 h
    obtain ⟨ts, semicolons, hpass, hderives, hall, hnone⟩ := he.lastOfStatement hvalue
    obtain ⟨first, us, rfl⟩ := List.exists_cons_of_ne_nil hderives.ne_nil
    have hfirst : feed.current = first := by simp [Feed.current, hpass.split]
    rw [hfirst]
    exact ⟨first :: us, semicolons, hpass, .expressionStatement hderives, hall, hnone⟩

/-- What is passed by a step that reads one statement, again and again, up to a token of the kind
`stop`. -/
theorem gatherUpTo_statements_sound (stop : Kind) {step : Parser (Option (List Node))}
    (hstep : ∀ {feed nodes? rest}, Yields step feed nodes? rest →
      (feed.current.kind = stop ∧ nodes? = none ∧ rest = feed) ∨
        ∃ node mid, Yields (statement expression) feed node mid ∧ nodes? = some [node] ∧
          rest = mid.advance)
    {bound : Nat} {feed rest : Feed} {nodes : List Node}
    (h : Yields (gatherUpTo step bound) feed nodes rest) :
    ∃ ts, feed.ahead = ts ++ rest.ahead ∧ rest.finish = feed.finish ∧
      rest.current.kind = stop ∧ Derives (reads limit) ts (.statements nodes) := by
  induction bound generalizing feed nodes with
  | zero => exact absurd h not_yields_exhausted
  | succ bound ih =>
      rw [yields_gatherUpTo] at h
      obtain ⟨hstop, rfl⟩ | ⟨front, mid, others, hmore, hothers, rfl⟩ := h
      · obtain ⟨hkind, -, rfl⟩ | ⟨_, _, _, hnone, _⟩ := hstep hstop
        · exact ⟨[], rfl, rfl, hkind, .noStatements⟩
        · simp at hnone
      · obtain ⟨_, hnone, _⟩ | ⟨node, last, hnode, hfront, rfl⟩ := hstep hmore
        · simp at hnone
        obtain rfl : front = [node] := by simpa using hfront
        obtain ⟨ts, semicolons, hpass, hderives, hall, hlowest⟩ := statement_sound he hnode
        obtain ⟨us, hsplit, hfinish, hkind, hrest⟩ := ih hothers
        refine ⟨ts ++ semicolons ++ us, ?_, hfinish.trans hpass.finish, hkind, ?_⟩
        · rw [hpass.split, hsplit]
          simp
        · refine .moreStatements hderives hall hrest fun hnil next hnext => ?_
          obtain ⟨us', rfl⟩ : ∃ us', us = next :: us' := List.head?_eq_some_iff.1 hnext
          have hcurrent : last.advance.current = next := by simp [Feed.current, hsplit]
          exact Kind.not_mem_ambiguous (hcurrent ▸ hlowest hnil)

variable (hhonest : ∀ power, Honest (expression power))
include hhonest

theorem block_sound :
    Sound limit (· = .leftBrace) (block expression) .block := by
  intro feed node rest hstart h
  obtain ⟨nodes, hnodes, rfl⟩ := yields_block.1 h
  obtain ⟨ts, hsplit, hfinish, hkind, hderives⟩ :=
    gatherUpTo_statements_sound he .rightBrace
      (fun h => ((yields_blockStep hhonest).1 h).imp_right fun h => h.2.2) hnodes
  have hpass : feed.advance.Passes (ts ++ [rest.current]) rest :=
    passes_concat.2 ⟨hsplit, hfinish, ahead_ne_nil (by rw [hkind]; decide), rfl⟩
  exact ⟨_, .consKind hstart (by decide) hpass, .block hstart hderives hkind⟩

/-! ## Operands -/

theorem conditional_sound :
    Sound limit (· = .ifWord) (conditional expression) .expression := by
  intro feed node rest hstart h
  obtain ⟨hopen, condition, mid, hcondition, hclose, hbrace, consequence, last, hconsequence,
    otherwise, halternative, rfl⟩ := yields_conditional.1 h
  obtain ⟨cs, hcs, hcondition⟩ := he.lowest hcondition
  obtain ⟨bs, hbs, hblock⟩ := block_sound he hhonest _ _ _ hbrace hconsequence
  have hfirst : feed.Passes
      (feed.current :: feed.advance.current :: cs ++ mid.advance.current :: bs) last := by
    simpa using Passes.consKind hstart (by decide)
      (.consKind hopen (by decide) ((hcs.snocKind hclose (by decide)).trans hbs))
  rw [yields_alternative] at halternative
  split at halternative
  case isTrue helse =>
    obtain ⟨hnext, halternative⟩ := halternative
    obtain ⟨es, hes, halternative⟩ := block_sound he hhonest _ _ _ hnext halternative
    refine ⟨_, ?_, .choice hstart hopen hcondition hclose hblock helse halternative⟩
    simpa using (hfirst.snocKind helse (by decide)).trans hes
  case isFalse =>
    obtain ⟨rfl, rfl⟩ := halternative
    exact ⟨_, hfirst, .conditional hstart hopen hcondition hclose hblock⟩

omit he hhonest in
theorem parameter_sound : Sound limit (fun _ => True) parameter .parameter := by
  intro feed node rest _ h
  obtain ⟨hkind, rfl, rfl⟩ := yields_parameter.1 h
  exact ⟨_, .ofKind hkind (by decide), .parameter hkind⟩

theorem function_sound :
    Sound limit (· = .functionWord) (function expression) .expression := by
  intro feed node rest hstart h
  obtain ⟨hopen, parameters, mid, hparameters, hbrace, body, hbody, rfl⟩ := yields_function.1 h
  obtain ⟨ps, hps, hclose, hlist⟩ := listUpTo_sound parameter_sound (by decide) hparameters
  obtain ⟨bs, hbs, hbody⟩ := block_sound he hhonest _ _ _ hbrace hbody
  refine ⟨_, ?_, .function hstart hopen hlist hclose hbody⟩
  simpa using Passes.consKind hstart (by decide) (.consKind hopen (by decide) (hps.trans hbs))

omit hhonest

theorem SoundExpression.item :
    Sound limit (fun _ => True) (expression BindingPower.lowest) .expression :=
  fun _ _ _ _ h => he.lowest h

theorem pair_sound :
    Sound limit (fun _ => True) (pair expression) fun pair => .pair pair.1 pair.2 := by
  rintro feed ⟨key, value⟩ rest _ h
  obtain ⟨mid, hkey, hcolon, hvalue⟩ := yields_pair.1 h
  obtain ⟨ks, hks, hkey⟩ := he.lowest hkey
  obtain ⟨vs, hvs, hvalue⟩ := he.lowest hvalue
  exact ⟨_, by simpa using (hks.snocKind hcolon (by decide)).trans hvs, .pair hkey hcolon hvalue⟩

theorem array_sound : Sound limit (· = .leftBracket) (array expression) .expression := by
  intro feed node rest hstart h
  obtain ⟨elements, helements, rfl⟩ := yields_array.1 h
  obtain ⟨ts, hpass, hclose, hlist⟩ := listUpTo_sound he.item (by decide) helements
  exact ⟨_, .consKind hstart (by decide) hpass, .array hstart hlist hclose⟩

theorem hash_sound : Sound limit (· = .leftBrace) (hash expression) .expression := by
  intro feed node rest hstart h
  obtain ⟨pairs, hpairs, rfl⟩ := yields_hash.1 h
  obtain ⟨ts, hpass, hclose, hlist⟩ := listUpTo_sound (pair_sound he) (by decide) hpairs
  exact ⟨_, .consKind hstart (by decide) hpass, .hash hstart hlist hclose⟩

theorem grouped_sound : Sound limit (· = .leftParen) (grouped expression) .expression := by
  intro feed node rest hstart h
  obtain ⟨mid, hinner, hclose, rfl⟩ := yields_grouped.1 h
  obtain ⟨ts, hpass, hderives⟩ := he.lowest hinner
  exact ⟨_, .consKind hstart (by decide) (hpass.snocKind hclose (by decide)),
    .grouped hstart hderives hclose⟩

theorem prefixed_sound :
    Sound limit (· ∈ Kind.prefixOperators) (prefixed expression) .expression := by
  intro feed node rest hstart h
  obtain ⟨right, hright, rfl⟩ := yields_prefixed.1 h
  obtain ⟨ts, hpass, hderives, -⟩ := he _ (by decide) _ _ _ hright
  have hend : feed.current.kind ≠ .endOfInput := fun heq => by
    simp [heq, Kind.prefixOperators] at hstart
  exact ⟨_, (Passes.one (ahead_ne_nil hend)).trans hpass, .prefixed hstart hderives⟩

include hhonest

theorem operand_sound :
    Sound limit (fun _ => True) (operand limit expression) .expression := by
  intro feed node rest _ h
  rw [yields_operand] at h
  have one {kind : Kind} (hkind : feed.current.kind = kind) (hend : kind ≠ .endOfInput) :
      feed.Passes [feed.current] feed :=
    .ofKind hkind hend
  split at h
  case h_1 hkind =>
    obtain ⟨rfl, rfl⟩ := h
    exact ⟨_, one hkind (by decide), .identifier hkind⟩
  case h_2 hkind =>
    obtain ⟨value, hread, hle, rfl, rfl⟩ := yields_integer.1 h
    exact ⟨_, one hkind (by decide), .integer hkind ⟨hread, hle⟩⟩
  case h_3 hkind =>
    obtain ⟨rfl, rfl⟩ := h
    exact ⟨_, one hkind (by decide), .string hkind⟩
  case h_4 hkind =>
    obtain ⟨rfl, rfl⟩ := h
    exact ⟨_, one hkind (by decide), .trueWord hkind⟩
  case h_5 hkind =>
    obtain ⟨rfl, rfl⟩ := h
    exact ⟨_, one hkind (by decide), .falseWord hkind⟩
  case h_6 hkind => exact prefixed_sound he _ _ _ (by simp [hkind, Kind.prefixOperators]) h
  case h_7 hkind => exact prefixed_sound he _ _ _ (by simp [hkind, Kind.prefixOperators]) h
  case h_8 hkind => exact grouped_sound he _ _ _ hkind h
  case h_9 hkind => exact conditional_sound he hhonest _ _ _ hkind h
  case h_10 hkind => exact function_sound he hhonest _ _ _ hkind h
  case h_11 hkind => exact array_sound he _ _ _ hkind h
  case h_12 hkind => exact hash_sound he _ _ _ hkind h
  case h_13 => exact h.elim

omit hhonest

/-! ## Extensions -/

/-- What extends an operand joins its tokens to those of the operand. -/
theorem extension_sound {feed rest : Feed} {left longer : Node} {ls : List Token}
    (htighter : BindingPower.lowest < feed.current.kind.bindingPower)
    (hleft : Derives (reads limit) ls (.expression left))
    (h : Yields (extension expression left) feed longer rest) :
    ∃ ts, feed.Passes ts rest ∧ Derives (reads limit) (ls ++ ts) (.expression longer) := by
  rw [yields_extension] at h
  split at h
  case h_1 hkind =>
    obtain ⟨arguments, harguments, rfl⟩ := yields_call.1 h
    obtain ⟨ts, hpass, hclose, hlist⟩ := listUpTo_sound he.item (by decide) harguments
    exact ⟨_, .consKind hkind (by decide) hpass, .call hleft hkind hlist hclose⟩
  case h_2 hkind =>
    obtain ⟨key, mid, hkey, hclose, rfl, rfl⟩ := yields_index.1 h
    obtain ⟨ts, hpass, hkey⟩ := he.lowest hkey
    exact ⟨_, .consKind hkind (by decide) (hpass.snocKind hclose (by decide)),
      .index hleft hkind hkey hclose⟩
  case h_3 hkind =>
    obtain ⟨hname, rfl, rfl⟩ := yields_property.1 h
    refine ⟨_, .consKind hkind (by decide) (.ofKind hname (by decide)), ?_⟩
    exact .property hleft hkind hname
  case h_4 hcall hindex hproperty =>
    obtain ⟨right, hright, rfl⟩ := yields_binary.1 h
    obtain ⟨ts, hpass, hderives, -⟩ := he _ (Nat.le_of_lt htighter) _ _ _ hright
    have hend := current_ne_endOfInput_of_power htighter
    exact ⟨_, (Passes.one (ahead_ne_nil hend)).trans hpass, .binary hleft
      (mem_infixOperators htighter hcall hindex hproperty) hderives⟩

theorem extendUpTo_sound {power bound : Nat} (hpower : BindingPower.lowest ≤ power)
    {start feed rest : Feed} {left node : Node} {ls : List Token} (hpass : start.Passes ls feed)
    (hleft : Derives (reads limit) ls (.expression left))
    (h : Yields (extendUpTo expression power bound left) feed node rest) :
    ∃ ts, start.Passes ts rest ∧ Derives (reads limit) ts (.expression node) ∧
      rest.advance.current.kind.bindingPower ≤ power := by
  induction bound generalizing feed left ls with
  | zero => exact absurd h not_yields_exhausted
  | succ bound ih =>
      rw [yields_extendUpTo] at h
      split at h
      case isTrue htighter =>
        obtain ⟨longer, mid, hlonger, h⟩ := h
        obtain ⟨ts, hnext, hderives⟩ :=
          extension_sound he (Nat.lt_of_le_of_lt hpower htighter) hleft hlonger
        exact ih (hpass.trans hnext) hderives h
      case isFalse hlooser =>
        obtain ⟨rfl, rfl⟩ := h
        exact ⟨ls, hpass, hleft, Nat.le_of_not_lt hlooser⟩

end

/-! ## The knot -/

theorem expression_sound (limit : Numeral.DigitLimit) (depth : Nat) :
    SoundExpression limit (Parser.expression limit depth) := by
  induction depth with
  | zero => exact fun _ _ _ _ _ h => absurd h not_yields_exhausted
  | succ depth ih =>
      intro power hpower feed node rest h
      simp only [Parser.expression, yields_bind] at h
      obtain ⟨left, mid, hleft, h⟩ := h
      obtain ⟨ls, hpass, hderives⟩ :=
        operand_sound ih (honest_expression limit depth) _ _ _ trivial hleft
      exact extendUpTo_sound ih hpower hpass hderives h

/-- A program that is read without errors is derived from the tokens before the first end
token. -/
theorem programStatements_sound {limit : Numeral.DigitLimit} {depth : Nat} {feed rest : Feed}
    {nodes : List Node}
    (h : Yields (programStatements (Parser.expression limit depth)) feed nodes rest) :
    ∃ ts, feed.ahead = ts ++ rest.ahead ∧ rest.current.kind = .endOfInput ∧
      Derives (reads limit) ts (.statements nodes) := by
  obtain ⟨ts, hsplit, -, hend, hderives⟩ :=
    gatherUpTo_statements_sound (expression_sound limit depth) .endOfInput
      (fun h => ((yields_programStep (honest_expression limit depth)).1 h).imp_right fun h => h.2) h
  exact ⟨ts, hsplit, hend, hderives⟩

end Parser

end MonkeyLanguage
