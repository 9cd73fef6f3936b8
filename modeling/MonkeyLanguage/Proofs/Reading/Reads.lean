-- SUMMARY: What the rules read when the right tokens lie ahead.
import MonkeyLanguage.Proofs.Reading.Passes
import MonkeyLanguage.Proofs.Reading.Rules

/-!
# Tokens that are read

`Reads limit rule fits ts a` says that a rule reads `a` from the tokens `ts` wherever they lie
ahead, if the kind of the token behind them fits. For the first part of an expression this is
too much to ask, because the rule goes on with what binds to it. There, `Leads` says that
reading gets to the point where `ts` is read as one node that may be extended.

Both are stated for whole trees, so they say which tree is read and not only that one is.
-/

namespace MonkeyLanguage

/-- The kinds that an expression may start with. -/
def Kind.starters : List Kind :=
  [.identifier, .integer, .string, .trueWord, .falseWord, .bang, .minus, .leftParen, .ifWord,
   .functionWord, .leftBracket, .leftBrace]

/-- The kinds that close a list. -/
def Kind.closers : List Kind := [.rightParen, .rightBracket, .rightBrace]

/-- An expression read at this power ends before a token of this kind, whatever it is. -/
structure Kind.Ends (power : Nat) (kind : Kind) : Prop where
  power_le : kind.bindingPower ≤ power
  no_else : kind ≠ .elseWord

theorem Kind.Ends.mono {power more : Nat} {kind : Kind} (h : kind.Ends power) (hle : power ≤ more) :
    kind.Ends more :=
  ⟨Nat.le_trans h.power_le hle, h.no_else⟩

theorem Kind.ends_of_closer {kind : Kind} (h : kind ∈ closers) : kind.Ends BindingPower.lowest := by
  simp only [closers, List.mem_cons, List.not_mem_nil, or_false] at h
  rcases h with rfl | rfl | rfl <;> exact ⟨by decide, by decide⟩

theorem Kind.ne_comma_of_closer {kind : Kind} (h : kind ∈ closers) : kind ≠ .comma := by
  rintro rfl
  simp [closers] at h

theorem Kind.not_starter_of_closer {kind : Kind} (h : kind ∈ closers) : kind ∉ starters := by
  simp only [closers, List.mem_cons, List.not_mem_nil, or_false] at h
  rcases h with rfl | rfl | rfl <;> decide

/-- The statement before these semicolons ends before a token of this kind. -/
structure Kind.Follows (semicolons : List Token) (kind : Kind) : Prop where
  no_semicolon : kind ≠ .semicolon
  ends : semicolons = [] → kind.Ends BindingPower.lowest

namespace Parser

open Feed

variable {α : Type} {limit : Numeral.DigitLimit} {depth power : Nat} {feed mid rest : Feed}
  {ts us : List Token} {node : Node}

/-- Phrases with commas between them, or none. -/
inductive Separated {α : Type} (P : List Token → α → Prop) : List Token → List α → Prop where
  | none : Separated P [] []
  | last {ts : List Token} {a : α} : P ts a → Separated P ts [a]
  | more {comma : Token} {ts rest : List Token} {a b : α} {others : List α} :
      P ts a → comma.kind = .comma → Separated P rest (b :: others) →
      Separated P (ts ++ comma :: rest) (a :: b :: others)

theorem Separated.imp {P Q : List Token → α → Prop} {items : List α} (h : Separated P ts items)
    (himp : ∀ ts a, P ts a → Q ts a) : Separated Q ts items := by
  induction h with
  | none => exact .none
  | last hfirst => exact .last (himp _ _ hfirst)
  | more hfirst hcomma _ ih => exact .more (himp _ _ hfirst) hcomma ih

/-- The rule reads the value from the tokens when they lie ahead and what follows fits. -/
structure Reads (limit : Numeral.DigitLimit) (rule : ExpressionParser → Parser α)
    (fits : Kind → Prop) (ts : List Token) (a : α) : Prop where
  ne_nil : ts ≠ []
  yields : ∀ {depth feed rest}, feed.Passes ts rest → feed.ahead.length < depth →
    fits rest.advance.current.kind → Yields (rule (Parser.expression limit depth)) feed a rest

/-- The tokens are read as an expression at the given power, and what follows ends it. -/
abbrev ReadsExpression (limit : Numeral.DigitLimit) (power : Nat) (ts : List Token)
    (node : Node) : Prop :=
  Reads limit (fun expression => expression power) (·.Ends power) ts node

/-- The tokens are read as an item of a list. -/
abbrev ReadsItem (limit : Numeral.DigitLimit) (item : ExpressionParser → Parser α)
    (ts : List Token) (a : α) : Prop :=
  Reads limit item (·.Ends BindingPower.lowest) ts a

/-- The tokens are read as a whole block, whatever follows. -/
structure ReadsBlock (limit : Numeral.DigitLimit) (ts : List Token) (node : Node) : Prop where
  opens : ∃ opening others, ts = opening :: others ∧ opening.kind = .leftBrace
  yields : ∀ {depth feed rest}, feed.Passes ts rest → feed.ahead.length < depth →
    Yields (block (Parser.expression limit depth)) feed node rest

/-- Reading an expression that starts with the tokens leads to the node made of them, if what
follows fits, and goes on from there. -/
structure Leads (limit : Numeral.DigitLimit) (fits : Kind → Prop) (ts : List Token)
    (node : Node) : Prop where
  ne_nil : ts ≠ []
  yields : ∀ {depth feed mid}, feed.Passes ts mid → feed.ahead.length ≤ depth →
    fits mid.advance.current.kind → ∀ {power}, power ≤ BindingPower.prefixed → ∀ {longer rest},
      Yields (extend (Parser.expression limit depth) power node) mid longer rest →
        Yields (Parser.expression limit (depth + 1) power) feed longer rest

theorem ReadsBlock.ne_nil (h : ReadsBlock limit ts node) : ts ≠ [] := by
  obtain ⟨opening, others, rfl, -⟩ := h.opens
  simp

theorem ReadsBlock.brace (h : ReadsBlock limit ts node) (hpass : feed.Passes ts rest) :
    feed.current.kind = .leftBrace := by
  obtain ⟨opening, others, rfl, hopen⟩ := h.opens
  rw [current_eq_of_ahead hpass.split, hopen]

/-! ## Extending -/

section

variable {expression : ExpressionParser} {left longer : Node}

theorem Yields.extend_stop (h : feed.advance.current.kind.bindingPower ≤ power) :
    Yields (extend expression power left) feed left feed := by
  show Yields (extendUpTo expression power (feed.ahead.length + 1) left) feed left feed
  rw [yields_extendUpTo, if_neg (Nat.not_lt.2 h)]
  exact ⟨rfl, rfl⟩

/-- More rounds than are needed change nothing. -/
theorem Yields.extendUpTo_mono {bound more : Nat} (hle : bound ≤ more)
    (h : Yields (extendUpTo expression power bound left) feed node rest) :
    Yields (extendUpTo expression power more left) feed node rest := by
  induction bound generalizing more feed left with
  | zero => exact absurd h not_yields_exhausted
  | succ bound ih =>
      obtain ⟨more, rfl⟩ : ∃ n, more = n + 1 := ⟨more - 1, by omega⟩
      rw [yields_extendUpTo] at h ⊢
      split at h
      case isTrue htighter =>
        obtain ⟨longer, mid, hlonger, h⟩ := h
        rw [if_pos htighter]
        exact ⟨longer, mid, hlonger, ih (by omega) h⟩
      case isFalse hlooser => rwa [if_neg hlooser]

theorem Yields.extend_more (htighter : power < feed.advance.current.kind.bindingPower)
    (hlonger : Yields (extension expression left) feed.advance longer mid)
    (hless : mid.ahead.length < feed.ahead.length)
    (h : Yields (extend expression power longer) mid node rest) :
    Yields (extend expression power left) feed node rest := by
  show Yields (extendUpTo expression power (feed.ahead.length + 1) left) feed node rest
  rw [yields_extendUpTo, if_pos htighter]
  exact ⟨longer, mid, hlonger, Yields.extendUpTo_mono (by omega) h⟩

end

/-! ## First tokens -/

theorem Yields.starter
    (h : Yields (Parser.expression limit depth power) feed node rest) :
    feed.current.kind ∈ Kind.starters := by
  cases depth with
  | zero => exact absurd h not_yields_exhausted
  | succ depth =>
      obtain ⟨left, mid, hleft, -⟩ := yields_bind.1 h
      rw [yields_operand] at hleft
      generalize feed.current.kind = kind at hleft
      cases kind <;> simp_all [Kind.starters]

theorem Yields.statementStarter
    (h : Yields (statement (Parser.expression limit depth)) feed node rest) :
    feed.current.kind ∈ .letWord :: .returnWord :: Kind.starters := by
  rw [yields_statement] at h
  split at h
  case h_1 hkind => simp [hkind]
  case h_2 hkind => simp [hkind]
  case h_3 =>
    obtain ⟨value, mid, hvalue, -⟩ := yields_expressionStatement.1 h
    simp [hvalue.starter]

/-! ## Lists -/

section

variable {item : ExpressionParser → Parser α} {closing : Token} {a : α} {items others : List α}

/-- The items of a list that has some. -/
theorem Separated.yields (h : Separated (ReadsItem limit item) ts items)
    (hclose : closing.kind ∈ Kind.closers) (hitems : items = a :: others)
    (hpass : feed.Passes (ts ++ [closing]) rest) (hdepth : feed.ahead.length < depth) :
    ∃ mid, Yields (item (Parser.expression limit depth)) feed a mid ∧
      mid.ahead.length ≤ feed.ahead.length ∧
      Yields (gather (listStep closing.kind (item (Parser.expression limit depth)))) mid others
        rest := by
  induction h generalizing feed a others with
  | none => cases hitems
  | last hfirst =>
      obtain ⟨rfl, rfl⟩ := List.cons.inj hitems
      obtain ⟨mid, hmid, -, rfl, rfl⟩ := (passes_snoc hfirst.ne_nil).1 hpass
      refine ⟨mid, hfirst.yields hmid hdepth (Kind.ends_of_closer hclose), hmid.length_le, ?_⟩
      refine Yields.gather_stop (yields_listStep.2 ?_)
      rw [if_neg (Kind.ne_comma_of_closer hclose)]
      exact ⟨rfl, rfl, rfl⟩
  | @more comma ts us first second others hfirst hcomma hothers ih =>
      obtain ⟨rfl, rfl⟩ := List.cons.inj hitems
      rw [List.append_assoc, List.cons_append, passes_append hfirst.ne_nil (by simp)] at hpass
      obtain ⟨mid, hmid, hnext⟩ := hpass
      obtain ⟨hahead, rfl, hafter⟩ := (passes_cons (by simp)).1 hnext
      have hends : mid.advance.current.kind.Ends BindingPower.lowest := by
        rw [hcomma]
        exact ⟨by decide, by decide⟩
      have hless := Nat.lt_trans (length_advance_lt hahead) (length_advance_lt hmid.front)
      have hle := hmid.length_le
      obtain ⟨last, hsecond, hlast, hrest⟩ := ih rfl hafter (by omega)
      refine ⟨mid, hfirst.yields hmid hdepth hends, hle, ?_⟩
      have hstep : Yields (listStep closing.kind (item (Parser.expression limit depth))) mid
          (some [second]) last := by
        rw [yields_listStep, if_pos hcomma]
        exact ⟨second, hsecond, rfl⟩
      exact hstep.gather_more (by omega) hrest

/-- A list with its closing token. -/
theorem Separated.yields_listUpTo (h : Separated (ReadsItem limit item) ts items)
    (hclose : closing.kind ∈ Kind.closers)
    (hstarter : ∀ {feed a rest}, Yields (item (Parser.expression limit depth)) feed a rest →
      feed.current.kind ∈ Kind.starters)
    (hpass : feed.advance.Passes (ts ++ [closing]) rest)
    (hdepth : feed.advance.ahead.length < depth) :
    Yields (listUpTo closing.kind (item (Parser.expression limit depth))) feed items rest := by
  rw [Parser.yields_listUpTo]
  cases items with
  | nil =>
      obtain rfl : ts = [] := by cases h; rfl
      obtain ⟨-, rfl, rfl⟩ := passes_singleton.1 hpass
      rw [if_pos rfl]
      exact ⟨rfl, rfl⟩
  | cons first others =>
      obtain ⟨mid, hfirst, -, hothers⟩ := h.yields hclose rfl hpass hdepth
      have hne : feed.advance.current.kind ≠ closing.kind := fun heq =>
        Kind.not_starter_of_closer hclose (heq ▸ hstarter hfirst)
      rw [if_neg hne]
      exact ⟨first, mid, others, hfirst, hothers, rfl⟩

end

end Parser

end MonkeyLanguage
