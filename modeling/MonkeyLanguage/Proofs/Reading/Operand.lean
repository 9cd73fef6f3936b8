-- SUMMARY: What operands and their extensions read when the right tokens lie ahead.
import MonkeyLanguage.Proofs.Grammar
import MonkeyLanguage.Proofs.Reading.Reads

/-!
# Operands

An operand is read as one node, and what follows may extend it. The only token that must not
follow is `else`, because a choice without a second branch would take it.

Calls and look-ups bind more tightly than any operator, so an operand with one of them behind
it is an operand again.
-/

namespace MonkeyLanguage

namespace Parser

open Feed

variable {limit : Numeral.DigitLimit} {ts us : List Token} {node : Node} {token opening closing : Token}

/-- The tokens are read as one operand, which is extended by what follows. -/
abbrev ReadsOperand (limit : Numeral.DigitLimit) (ts : List Token) (node : Node) : Prop :=
  Leads limit (· ≠ .elseWord) ts node

/-- It is enough that the rule for operands reads the tokens. -/
theorem ReadsOperand.of_operand (hts : ts ≠ [])
    (h : ∀ {depth feed rest}, feed.Passes ts rest → feed.ahead.length ≤ depth →
      rest.advance.current.kind ≠ .elseWord →
        Yields (operand limit (Parser.expression limit depth)) feed node rest) :
    ReadsOperand limit ts node where
  ne_nil := hts
  yields hpass hdepth hfits _ _ _ _ hextend :=
    yields_bind.2 ⟨node, _, h hpass hdepth hfits, hextend⟩

theorem Leads.readsExpression {fits : Kind → Prop} {power : Nat} (h : Leads limit fits ts node)
    (hpower : power ≤ BindingPower.prefixed) (hfits : ∀ kind : Kind, kind.Ends power → fits kind) :
    ReadsExpression limit power ts node where
  ne_nil := h.ne_nil
  yields := by
    intro depth feed rest hpass hdepth hends
    obtain ⟨depth, rfl⟩ : ∃ n, depth = n + 1 := ⟨depth - 1, by omega⟩
    exact h.yields hpass (Nat.le_of_lt_succ hdepth) (hfits _ hends) hpower
      (Yields.extend_stop hends.power_le)

theorem ReadsOperand.readsExpression {power : Nat} (h : ReadsOperand limit ts node)
    (hpower : power ≤ BindingPower.prefixed) : ReadsExpression limit power ts node :=
  Leads.readsExpression h hpower fun _ hends => hends.no_else

/-! ## Single tokens -/

theorem readsOperand_identifier (h : token.kind = .identifier) :
    ReadsOperand limit [token] (.identifier token token.literal) := by
  refine .of_operand (by simp) fun hpass _ _ => ?_
  obtain ⟨-, rfl, rfl⟩ := passes_singleton.1 hpass
  rw [yields_operand, h]
  exact ⟨rfl, rfl⟩

theorem readsOperand_integer {value : Int} (h : token.kind = .integer)
    (hread : Numeral.read? token.literal limit = some value) (hle : value ≤ largestInteger) :
    ReadsOperand limit [token] (.integer token value) := by
  refine .of_operand (by simp) fun hpass _ _ => ?_
  obtain ⟨-, rfl, rfl⟩ := passes_singleton.1 hpass
  rw [yields_operand, h]
  exact yields_integer.2 ⟨value, hread, hle, rfl, rfl⟩

theorem readsOperand_string (h : token.kind = .string) :
    ReadsOperand limit [token] (.string token token.literal) := by
  refine .of_operand (by simp) fun hpass _ _ => ?_
  obtain ⟨-, rfl, rfl⟩ := passes_singleton.1 hpass
  rw [yields_operand, h]
  exact ⟨rfl, rfl⟩

theorem readsOperand_boolean (value : Bool)
    (h : token.kind = if value then .trueWord else .falseWord) :
    ReadsOperand limit [token] (.boolean token value) := by
  refine .of_operand (by simp) fun hpass _ _ => ?_
  obtain ⟨-, rfl, rfl⟩ := passes_singleton.1 hpass
  rw [yields_operand, h]
  cases value
  · exact ⟨rfl, rfl⟩
  · exact ⟨rfl, rfl⟩

/-! ## Brackets -/

theorem ReadsExpression.grouped (h : ReadsExpression limit BindingPower.lowest ts node)
    (hopen : opening.kind = .leftParen) (hclose : closing.kind = .rightParen) :
    ReadsOperand limit (opening :: ts ++ [closing]) node := by
  refine .of_operand (by simp) fun hpass hdepth _ => ?_
  obtain ⟨hahead, rfl, hnext⟩ := (passes_cons (by simp)).1 hpass
  obtain ⟨mid, hmid, -, rfl, rfl⟩ := (passes_snoc h.ne_nil).1 hnext
  have hless := Nat.lt_of_lt_of_le (length_advance_lt hahead) hdepth
  rw [yields_operand, hopen]
  refine yields_grouped.2 ⟨mid, h.yields hmid hless ?_, hclose, rfl⟩
  rw [hclose]
  exact ⟨by decide, by decide⟩

theorem readsOperand_array {elements : List Node}
    (h : Separated (ReadsExpression limit BindingPower.lowest) ts elements)
    (hopen : opening.kind = .leftBracket) (hclose : closing.kind = .rightBracket) :
    ReadsOperand limit (opening :: ts ++ [closing]) (.array opening elements) := by
  refine .of_operand (by simp) fun hpass hdepth _ => ?_
  obtain ⟨hahead, rfl, hnext⟩ := (passes_cons (by simp)).1 hpass
  have hless := Nat.lt_of_lt_of_le (length_advance_lt hahead) hdepth
  have hlist := h.yields_listUpTo (by simp [hclose, Kind.closers]) Yields.starter hnext hless
  rw [hclose] at hlist
  rw [yields_operand, hopen]
  exact yields_array.2 ⟨elements, hlist, rfl⟩

theorem ReadsExpression.pair {colon : Token} {value : Node}
    (h : ReadsExpression limit BindingPower.lowest ts node) (hcolon : colon.kind = .colon)
    (hvalue : ReadsExpression limit BindingPower.lowest us value) :
    ReadsItem limit pair (ts ++ colon :: us) (node, value) where
  ne_nil := by simp
  yields := by
    intro depth feed rest hpass hdepth hends
    obtain ⟨mid, hmid, hnext⟩ := (passes_append h.ne_nil (by simp)).1 hpass
    obtain ⟨hahead, rfl, hlast⟩ := (passes_cons hvalue.ne_nil).1 hnext
    have hcolonEnds : mid.advance.current.kind.Ends BindingPower.lowest := by
      rw [hcolon]
      exact ⟨by decide, by decide⟩
    have hless := Nat.lt_trans (length_advance_lt hahead) (length_advance_lt hmid.front)
    have hle := hmid.length_le
    exact yields_pair.2 ⟨mid, h.yields hmid hdepth hcolonEnds, hcolon,
      hvalue.yields hlast (by omega) hends⟩

theorem Yields.pairStarter {depth : Nat} {feed rest : Feed} {entry : Node × Node}
    (h : Yields (pair (Parser.expression limit depth)) feed entry rest) :
    feed.current.kind ∈ Kind.starters :=
  let ⟨_, hkey, _⟩ := yields_pair.1 h
  hkey.starter

theorem readsOperand_hash {pairs : List (Node × Node)}
    (h : Separated (ReadsItem limit pair) ts pairs) (hopen : opening.kind = .leftBrace)
    (hclose : closing.kind = .rightBrace) :
    ReadsOperand limit (opening :: ts ++ [closing]) (.hash opening pairs) := by
  refine .of_operand (by simp) fun hpass hdepth _ => ?_
  obtain ⟨hahead, rfl, hnext⟩ := (passes_cons (by simp)).1 hpass
  have hless := Nat.lt_of_lt_of_le (length_advance_lt hahead) hdepth
  have hlist := h.yields_listUpTo (by simp [hclose, Kind.closers]) Yields.pairStarter hnext hless
  rw [hclose] at hlist
  rw [yields_operand, hopen]
  exact yields_hash.2 ⟨pairs, hlist, rfl⟩

/-! ## Functions and choices -/

theorem readsItem_parameter (h : token.kind = .identifier) :
    ReadsItem limit (fun _ => parameter) [token] (.identifier token token.literal) where
  ne_nil := by simp
  yields := by
    intro depth feed rest hpass _ _
    obtain ⟨-, rfl, rfl⟩ := passes_singleton.1 hpass
    exact yields_parameter.2 ⟨h, rfl, rfl⟩

theorem Yields.parameterStarter {feed rest : Feed} (h : Yields parameter feed node rest) :
    feed.current.kind ∈ Kind.starters := by
  rw [(yields_parameter.1 h).1]
  decide

theorem readsOperand_function {word : Token} {parameters : List Node} {body : Node}
    (hword : word.kind = .functionWord) (hopen : opening.kind = .leftParen)
    (h : Separated (ReadsItem limit fun _ => parameter) ts parameters)
    (hclose : closing.kind = .rightParen) (hbody : ReadsBlock limit us body) :
    ReadsOperand limit (word :: opening :: ts ++ closing :: us)
      (.function word parameters body) := by
  refine .of_operand (by simp) fun {depth feed rest} hpass hdepth _ => ?_
  rw [List.cons_append, List.cons_append, List.append_cons ts] at hpass
  obtain ⟨hahead, rfl, hnext⟩ := (passes_cons (by simp)).1 hpass
  obtain ⟨hahead', rfl, hafter⟩ := (passes_cons (by simp)).1 hnext
  obtain ⟨mid, hmid, hlast⟩ := (passes_append (by simp) hbody.ne_nil).1 hafter
  have hlessOpen := Nat.lt_of_lt_of_le (length_advance_lt hahead) hdepth
  have hless := Nat.lt_trans (length_advance_lt hahead') hlessOpen
  have hlessBody := Nat.lt_trans (length_advance_lt hmid.front)
    (Nat.lt_of_le_of_lt hmid.length_le hless)
  have hlist : Yields (listUpTo closing.kind parameter) feed.advance parameters mid :=
    h.yields_listUpTo (by simp [hclose, Kind.closers]) Yields.parameterStarter hmid hless
  rw [hclose] at hlist
  rw [yields_operand, hword]
  exact yields_function.2 ⟨hopen, parameters, mid, hlist, hbody.brace hlast, body,
    hbody.yields hlast hlessBody, rfl⟩

/-- What comes before the `else` of a choice, if there is one. -/
theorem passes_condition {word : Token} {condition consequence : Node} {cs bs : List Token}
    (hopen : opening.kind = .leftParen)
    (h : ReadsExpression limit BindingPower.lowest cs condition)
    (hclose : closing.kind = .rightParen) (hblock : ReadsBlock limit bs consequence)
    {depth : Nat} {feed last : Feed}
    (hpass : feed.Passes (word :: opening :: cs ++ closing :: bs) last)
    (hdepth : feed.ahead.length ≤ depth) :
    feed.current = word ∧ feed.advance.current.kind = .leftParen ∧ ∃ mid,
      Yields (Parser.expression limit depth BindingPower.lowest) feed.advance.advance condition mid ∧
        mid.advance.current.kind = .rightParen ∧ mid.advance.advance.current.kind = .leftBrace ∧
          Yields (block (Parser.expression limit depth)) mid.advance.advance consequence last ∧
            last.ahead.length < depth := by
  obtain ⟨hahead, rfl, hnext⟩ := (passes_cons (by simp)).1 hpass
  obtain ⟨hahead', rfl, hafter⟩ := (passes_cons (by simp)).1 hnext
  obtain ⟨mid, hmid, hlast⟩ := (passes_append h.ne_nil (by simp)).1 hafter
  obtain ⟨hahead'', rfl, hbs⟩ := (passes_cons hblock.ne_nil).1 hlast
  have hless := Nat.lt_trans (length_advance_lt hahead')
    (Nat.lt_of_lt_of_le (length_advance_lt hahead) hdepth)
  have hlessBlock := Nat.lt_trans (length_advance_lt hahead'') (Nat.lt_trans
    (length_advance_lt hmid.front) (Nat.lt_of_le_of_lt hmid.length_le hless))
  have hends : mid.advance.current.kind.Ends BindingPower.lowest := by
    rw [hclose]
    exact ⟨by decide, by decide⟩
  exact ⟨rfl, hopen, mid, h.yields hmid hless hends, hclose, hblock.brace hbs,
    hblock.yields hbs hlessBlock, Nat.lt_of_le_of_lt hbs.length_le hlessBlock⟩

theorem readsOperand_conditional {word : Token} {condition consequence : Node}
    {cs bs : List Token} (hword : word.kind = .ifWord) (hopen : opening.kind = .leftParen)
    (h : ReadsExpression limit BindingPower.lowest cs condition)
    (hclose : closing.kind = .rightParen) (hblock : ReadsBlock limit bs consequence) :
    ReadsOperand limit (word :: opening :: cs ++ closing :: bs)
      (.conditional word condition consequence .missing) := by
  refine .of_operand (by simp) fun {depth feed rest} hpass hdepth hfits => ?_
  obtain ⟨rfl, hparen, mid, hcondition, hend, hbrace, hconsequence, -⟩ :=
    passes_condition hopen h hclose hblock hpass hdepth
  rw [yields_operand, hword]
  refine yields_conditional.2 ⟨hparen, condition, mid, hcondition, hend, hbrace, consequence, rest,
    hconsequence, .missing, yields_alternative.2 ?_, rfl⟩
  rw [if_neg hfits]
  exact ⟨rfl, rfl⟩

theorem readsOperand_choice {word other : Token} {condition consequence otherwise : Node}
    {cs bs es : List Token} (hword : word.kind = .ifWord) (hopen : opening.kind = .leftParen)
    (h : ReadsExpression limit BindingPower.lowest cs condition)
    (hclose : closing.kind = .rightParen) (hblock : ReadsBlock limit bs consequence)
    (helse : other.kind = .elseWord) (hother : ReadsBlock limit es otherwise) :
    ReadsOperand limit (word :: opening :: cs ++ closing :: bs ++ other :: es)
      (.conditional word condition consequence otherwise) := by
  refine .of_operand (by simp) fun {depth feed rest} hpass hdepth _ => ?_
  obtain ⟨last, hfirst, hnext⟩ := (passes_append (by simp) (by simp)).1 hpass
  obtain ⟨hahead, rfl, hes⟩ := (passes_cons hother.ne_nil).1 hnext
  obtain ⟨rfl, hparen, mid, hcondition, hend, hbrace, hconsequence, hless⟩ :=
    passes_condition hopen h hclose hblock hfirst hdepth
  have hlessOther := Nat.lt_trans (length_advance_lt hahead)
    (Nat.lt_trans (length_advance_lt hfirst.front) hless)
  rw [yields_operand, hword]
  refine yields_conditional.2 ⟨hparen, condition, mid, hcondition, hend, hbrace, consequence, last,
    hconsequence, otherwise, yields_alternative.2 ?_, rfl⟩
  rw [if_pos helse]
  exact ⟨hother.brace hes, hother.yields hes hlessOther⟩

/-! ## Calls and look-ups -/

/-- The tokens extend the operand before them, which `extended` joins to what they stand for. -/
structure ReadsExtension (limit : Numeral.DigitLimit) (ts : List Token) (extended : Node → Node) :
    Prop where
  ne_nil : ts ≠ []
  tighter : ∀ token ∈ ts.head?, BindingPower.prefixed < token.kind.bindingPower
  yields : ∀ {depth feed rest}, feed.Passes ts rest → feed.ahead.length ≤ depth → ∀ left,
    Yields (extension (Parser.expression limit depth) left) feed (extended left) rest

theorem ReadsOperand.extend {extended : Node → Node} (h : ReadsOperand limit ts node)
    (hextension : ReadsExtension limit us extended) :
    ReadsOperand limit (ts ++ us) (extended node) where
  ne_nil := by simp [h.ne_nil]
  yields := by
    intro depth feed rest hpass hdepth _ power hpower longer last hlonger
    obtain ⟨mid, hmid, hrest⟩ := (passes_append h.ne_nil hextension.ne_nil).1 hpass
    obtain ⟨first, others, rfl⟩ := List.exists_cons_of_ne_nil hextension.ne_nil
    have htighter : BindingPower.prefixed < mid.advance.current.kind.bindingPower := by
      rw [current_eq_of_ahead hrest.split]
      exact hextension.tighter _ rfl
    have hless := length_advance_lt hmid.front
    have hle := hmid.length_le
    have hlast := hrest.length_le
    refine h.yields hmid hdepth ?_ hpower (Yields.extend_more (Nat.lt_of_le_of_lt hpower htighter)
      (hextension.yields hrest (by omega) node) (by omega) hlonger)
    intro helse
    simp [helse, Kind.bindingPower, BindingPower.prefixed, BindingPower.lowest] at htighter

theorem readsExtension_call {arguments : List Node}
    (h : Separated (ReadsExpression limit BindingPower.lowest) ts arguments)
    (hopen : opening.kind = .leftParen) (hclose : closing.kind = .rightParen) :
    ReadsExtension limit (opening :: ts ++ [closing])
      fun callee => .call opening callee arguments where
  ne_nil := by simp
  tighter := by simp [hopen, Kind.bindingPower, BindingPower.prefixed]
  yields := by
    intro depth feed rest hpass hdepth left
    obtain ⟨hahead, rfl, hnext⟩ := (passes_cons (by simp)).1 hpass
    have hless := Nat.lt_of_lt_of_le (length_advance_lt hahead) hdepth
    have hlist := h.yields_listUpTo (by simp [hclose, Kind.closers]) Yields.starter hnext hless
    rw [hclose] at hlist
    rw [yields_extension, hopen]
    exact yields_call.2 ⟨arguments, hlist, rfl⟩

theorem readsExtension_index {key : Node} (h : ReadsExpression limit BindingPower.lowest ts key)
    (hopen : opening.kind = .leftBracket) (hclose : closing.kind = .rightBracket) :
    ReadsExtension limit (opening :: ts ++ [closing])
      fun target => .index opening target key where
  ne_nil := by simp
  tighter := by simp [hopen, Kind.bindingPower, BindingPower.prefixed]
  yields := by
    intro depth feed rest hpass hdepth left
    obtain ⟨hahead, rfl, hnext⟩ := (passes_cons (by simp)).1 hpass
    obtain ⟨mid, hmid, -, rfl, rfl⟩ := (passes_snoc h.ne_nil).1 hnext
    have hless := Nat.lt_of_lt_of_le (length_advance_lt hahead) hdepth
    have hends : mid.advance.current.kind.Ends BindingPower.lowest := by
      rw [hclose]
      exact ⟨by decide, by decide⟩
    rw [yields_extension, hopen]
    exact yields_index.2 ⟨key, mid, h.yields hmid hless hends, hclose, rfl, rfl⟩

theorem readsExtension_property {period name : Token} (hperiod : period.kind = .period)
    (hname : name.kind = .identifier) :
    ReadsExtension limit [period, name] fun target =>
      .index period target (.string name name.literal) where
  ne_nil := by simp
  tighter := by simp [hperiod, Kind.bindingPower, BindingPower.prefixed]
  yields := by
    intro depth feed rest hpass _ left
    obtain ⟨-, rfl, hnext⟩ := (passes_cons (by simp)).1 hpass
    obtain ⟨-, rfl, rfl⟩ := passes_singleton.1 hnext
    rw [yields_extension, hperiod]
    exact yields_property.2 ⟨hname, rfl, rfl⟩

end Parser

end MonkeyLanguage
