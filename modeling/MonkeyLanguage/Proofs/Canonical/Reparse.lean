-- SUMMARY: The canonical text of a well-formed tree is read as that tree.
import MonkeyLanguage.Proofs.Canonical.Spelling
import MonkeyLanguage.Proofs.Grammar.Acceptance

/-!
# Reading canonical texts

In canonical text every operation has brackets of its own, so each expression is one operand
to the parser and nothing is left to binding powers. What is read back is the tree that was
written, except for the tokens it is made from.
-/

namespace MonkeyLanguage

namespace Node

@[simp] theorem eraseAll_eq_map (nodes : List Node) : eraseAll nodes = nodes.map erase := by
  induction nodes with
  | nil => rfl
  | cons node nodes ih => rw [eraseAll, ih, List.map_cons]

@[simp] theorem erasePairs_eq_map (pairs : List (Node × Node)) :
    erasePairs pairs = pairs.map fun pair => (pair.1.erase, pair.2.erase) := by
  induction pairs with
  | nil => rfl
  | cons pair pairs ih => rw [erasePairs, ih, List.map_cons]

theorem spellAll_eq_map (nodes : List Node) : spellAll nodes = nodes.map spelling := by
  induction nodes with
  | nil => rfl
  | cons node nodes ih => rw [spellAll, ih, List.map_cons]

theorem spellPairs_eq_map (pairs : List (Node × Node)) :
    spellPairs pairs =
      pairs.map fun pair => pair.1.spelling ++ Kind.colon.symbol :: pair.2.spelling := by
  induction pairs with
  | nil => rfl
  | cons pair pairs ih => rw [spellPairs, ih, List.map_cons]

end Node

/-- The shapes of a choice with two branches. -/
theorem spelling_choice {limit : Numeral.DigitLimit} {alternative : Node}
    (h : WellFormed limit (.block alternative)) (token : Token) (condition consequence : Node) :
    (Node.conditional token condition consequence alternative).spelling =
      ((.ifWord, "if") :: Kind.leftParen.symbol :: condition.spelling ++
        Kind.rightParen.symbol :: consequence.spelling) ++
          (.elseWord, "else") :: alternative.spelling := by
  cases h
  simp [Node.spelling]

/-! ## Tokens of given shapes -/

theorem Token.kind_of_shape {token : Token} {kind : Kind} (h : token.shape = kind.symbol) :
    token.kind = kind :=
  congrArg Prod.fst h

/-- Tokens in brackets, from their shapes. -/
theorem exists_bracketed {ts : List Token} {opening closing : Kind} {inner : List Shape}
    (h : ts.map Token.shape = opening.symbol :: inner ++ [closing.symbol]) :
    ∃ first us last, ts = first :: us ++ [last] ∧ first.kind = opening ∧
      us.map Token.shape = inner ∧ last.kind = closing := by
  obtain ⟨front, back, rfl, hfront, hback⟩ := List.map_eq_append_iff.1 h
  obtain ⟨first, us, rfl, hfirst, hus⟩ := List.map_eq_cons_iff.1 hfront
  obtain ⟨last, others, rfl, hlast, hothers⟩ := List.map_eq_cons_iff.1 hback
  obtain rfl := List.map_eq_nil_iff.1 hothers
  exact ⟨first, us, last, rfl, first.kind_of_shape hfirst, hus, last.kind_of_shape hlast⟩

/-- A word, something in round brackets and a rest, from their shapes. -/
theorem exists_headed {ts : List Token} {head : Shape} {inner others : List Shape}
    (h : ts.map Token.shape = head :: Kind.leftParen.symbol :: inner ++
      Kind.rightParen.symbol :: others) :
    ∃ word us opening closing vs, ts = word :: opening :: us ++ closing :: vs ∧ word.shape = head ∧
      opening.kind = .leftParen ∧ us.map Token.shape = inner ∧ closing.kind = .rightParen ∧
        vs.map Token.shape = others := by
  obtain ⟨front, back, rfl, hfront, hback⟩ := List.map_eq_append_iff.1 h
  obtain ⟨word, rest, rfl, hword, hrest⟩ := List.map_eq_cons_iff.1 hfront
  obtain ⟨opening, us, rfl, hopen, hus⟩ := List.map_eq_cons_iff.1 hrest
  obtain ⟨closing, vs, rfl, hclose, hvs⟩ := List.map_eq_cons_iff.1 hback
  exact ⟨word, us, opening, closing, vs, rfl, hword, opening.kind_of_shape hopen, hus,
    closing.kind_of_shape hclose, hvs⟩

/-- Items with commas between them, from their shapes. -/
theorem exists_separated {α β : Type} {items : List α} {spelled : α → List Shape}
    {good : α → β → Prop} {R : List Token → β → Prop}
    (h : ∀ a ∈ items, ∀ ts : List Token, ts.map Token.shape = spelled a →
      ∃ b, good a b ∧ R ts b)
    {ts : List Token} (hts : ts.map Token.shape = commaShapes (items.map spelled)) :
    ∃ others, List.Forall₂ good items others ∧ Parser.Separated R ts others := by
  induction items generalizing ts with
  | nil =>
      obtain rfl := List.map_eq_nil_iff.1 hts
      exact ⟨[], .nil, .none⟩
  | cons a items ih =>
      have ha := h a List.mem_cons_self
      cases items with
      | nil =>
          obtain ⟨b, hb, hread⟩ := ha ts (by simpa [commaShapes] using hts)
          exact ⟨[b], .cons hb .nil, .last hread⟩
      | cons next items =>
          simp only [commaShapes, List.map_cons, List.intercalate_cons_cons,
            List.append_assoc] at hts
          obtain ⟨us, back, rfl, hus, hback⟩ := List.map_eq_append_iff.1 hts
          obtain ⟨comma, vs, rfl, hcomma, hvs⟩ := List.map_eq_cons_iff.1 hback
          obtain ⟨b, hb, hread⟩ := ha us hus
          obtain ⟨others, hothers, hrest⟩ :=
            ih (fun c hmem => h c (List.mem_cons_of_mem _ hmem)) hvs
          cases hothers with
          | cons hsecond hothers =>
              exact ⟨_, .cons hb (.cons hsecond hothers),
                .more hread (comma.kind_of_shape hcomma) hrest⟩

/-- Items that are the same one by one after erasing are the same as a list. -/
theorem erased_eq_of_forall₂ {α β : Type} {erased : α → β} {items others : List α}
    (h : List.Forall₂ (fun a b => erased b = erased a) items others) :
    others.map erased = items.map erased := by
  induction h with
  | nil => rfl
  | cons hfirst _ ih => rw [List.map_cons, List.map_cons, hfirst, ih]

/-! ## Phrases -/

namespace Parser

/-- Tokens of the shapes of the phrase are read as a tree that differs in its tokens only. A
statement may have a semicolon behind it, and must have one if it has to be told apart from the
next. -/
def Reparsed (limit : Numeral.DigitLimit) : Phrase → Prop
  | .expression node => ∀ ts : List Token, ts.map Token.shape = node.spelling →
      ∃ other, other.erase = node.erase ∧ ReadsOperand limit ts other
  | .parameter node => ∀ ts : List Token, ts.map Token.shape = node.spelling →
      ∃ other, other.erase = node.erase ∧ ReadsItem limit (fun _ => parameter) ts other
  | .pair key value => ∀ ts : List Token,
      ts.map Token.shape = key.spelling ++ Kind.colon.symbol :: value.spelling →
        ∃ entry, (entry.1.erase, entry.2.erase) = (key.erase, value.erase) ∧
          ReadsItem limit pair ts entry
  | .list _ => True
  | .statement node => ∀ (more : Bool) (ts : List Token),
      ts.map Token.shape =
        node.spelling ++ (if node.isExpressionStatement && more then [Kind.semicolon.symbol] else []) →
      ∃ core semicolons other, ts = core ++ semicolons ∧ other.erase = node.erase ∧
        ReadsStatement limit semicolons core other ∧ (more → semicolons ≠ [])
  | .statements _ => True
  | .block node => ∀ ts : List Token, ts.map Token.shape = node.spelling →
      ∃ other, other.erase = node.erase ∧ ReadsBlock limit ts other

variable {limit : Numeral.DigitLimit}

/-- The tokens of several expressions with commas between them. -/
theorem exists_expressions {nodes : List Node}
    (h : ∀ node ∈ nodes, Reparsed limit (.expression node)) {ts : List Token}
    (hts : ts.map Token.shape = commaShapes (Node.spellAll nodes)) :
    ∃ others, others.map Node.erase = nodes.map Node.erase ∧
      Separated (ReadsExpression limit BindingPower.lowest) ts others := by
  rw [Node.spellAll_eq_map] at hts
  have hread : ∀ node ∈ nodes, ∀ us : List Token, us.map Token.shape = node.spelling →
      ∃ other, other.erase = node.erase ∧
        ReadsExpression limit BindingPower.lowest us other := by
    intro node hmem us hus
    obtain ⟨other, hother, hread⟩ := h node hmem us hus
    exact ⟨other, hother, hread.readsExpression (by decide)⟩
  obtain ⟨others, hothers, hlist⟩ := exists_separated hread hts
  exact ⟨others, erased_eq_of_forall₂ hothers, hlist⟩

/-- The tokens of the statements of a program or block. -/
theorem exists_sequence {nodes : List Node} (h : ∀ node ∈ nodes, Reparsed limit (.statement node))
    {ts : List Token} (hts : ts.map Token.shape = Node.spellStatements nodes) :
    ∃ others, others.map Node.erase = nodes.map Node.erase ∧ Sequence limit ts others := by
  induction nodes generalizing ts with
  | nil =>
      obtain rfl := List.map_eq_nil_iff.1 hts
      exact ⟨[], rfl, .none⟩
  | cons node nodes ih =>
      obtain ⟨us, vs, rfl, hus, hvs⟩ := List.map_eq_append_iff.1 hts
      obtain ⟨core, semicolons, other, rfl, hother, hread, hmore⟩ :=
        h node List.mem_cons_self (!nodes.isEmpty) us hus
      obtain ⟨others, hothers, hrest⟩ :=
        ih (fun next hmem => h next (List.mem_cons_of_mem _ hmem)) hvs
      refine ⟨other :: others, by simp [hother, hothers], .more hread hrest fun hnil => ?_⟩
      cases nodes with
      | nil =>
          obtain rfl := List.map_eq_nil_iff.1 hvs
          simp
      | cons next nodes => exact absurd hnil (hmore rfl)

section

attribute [local simp] Node.erase

variable {token : Token} {left right condition consequence alternative body callee target key
  value : Node}

theorem Reparsed.identifier (token : Token) (name : String) :
    Reparsed limit (.expression (.identifier token name)) := by
  intro ts hts
  obtain ⟨token, rfl, hshape⟩ := List.map_eq_singleton_iff.1 hts
  obtain ⟨hkind, rfl⟩ := Prod.mk.inj hshape
  refine ⟨_, ?_, readsOperand_identifier hkind⟩
  rfl

theorem Reparsed.integer {value : Int} (hwritten : Numeral.Written limit token.literal value) :
    Reparsed limit (.expression (.integer token value)) := by
  intro ts hts
  obtain ⟨other, rfl, hshape⟩ := List.map_eq_singleton_iff.1 hts
  obtain ⟨hkind, hliteral⟩ := Prod.mk.inj hshape
  rw [← hliteral] at hwritten
  obtain ⟨hread, hle⟩ := (Numeral.reads_iff_written hwritten.digits).2 hwritten
  exact ⟨.integer other value, by simp [hliteral],
    readsOperand_integer hkind hread hle⟩

theorem Reparsed.string (token : Token) (text : String) :
    Reparsed limit (.expression (.string token text)) := by
  intro ts hts
  obtain ⟨token, rfl, hshape⟩ := List.map_eq_singleton_iff.1 hts
  obtain ⟨hkind, rfl⟩ := Prod.mk.inj hshape
  refine ⟨_, ?_, readsOperand_string hkind⟩
  rfl

theorem Reparsed.boolean {value : Bool}
    (hliteral : token.literal = if value then "true" else "false") :
    Reparsed limit (.expression (.boolean token value)) := by
  intro ts hts
  obtain ⟨other, rfl, hshape⟩ := List.map_eq_singleton_iff.1 hts
  obtain ⟨hkind, -⟩ := Prod.mk.inj hshape
  refine ⟨.boolean other value, rfl, readsOperand_boolean value ?_⟩
  rw [hkind, hliteral]
  cases value <;> rfl

theorem Reparsed.prefixed {operator : String} (hoperator : operator ∈ ["!", "-"])
    (hright : Reparsed limit (.expression right)) :
    Reparsed limit (.expression (.prefixed token operator right)) := by
  intro ts hts
  obtain ⟨opening, us, closing, rfl, hopen, hus, hclose⟩ := exists_bracketed hts
  obtain ⟨sign, vs, rfl, hsign, hvs⟩ := List.map_eq_cons_iff.1 hus
  obtain ⟨hkind, hliteral⟩ := Prod.mk.inj hsign
  rw [Kind.name_ofName] at hliteral
  obtain ⟨other, hother, hread⟩ := hright vs hvs
  have hmem : sign.kind ∈ Kind.prefixOperators := by
    rw [hkind]
    simp only [List.mem_cons, List.not_mem_nil, or_false] at hoperator
    rcases hoperator with rfl | rfl <;> decide
  have hexpression := (hread.chain.prefixed hmem).readsExpression (.stop (by simp))
  refine ⟨_, ?_, hexpression.grouped hopen hclose⟩
  simp [hother, hliteral]

theorem Reparsed.binary {operator : String}
    (hoperator : operator ∈ ["+", "-", "*", "/", "<", ">", "==", "!="])
    (hleft : Reparsed limit (.expression left)) (hright : Reparsed limit (.expression right)) :
    Reparsed limit (.expression (.binary token operator left right)) := by
  intro ts hts
  obtain ⟨opening, us, closing, rfl, hopen, hus, hclose⟩ := exists_bracketed hts
  obtain ⟨ls, back, rfl, hls, hback⟩ := List.map_eq_append_iff.1 hus
  obtain ⟨sign, rs, rfl, hsign, hrs⟩ := List.map_eq_cons_iff.1 hback
  obtain ⟨hkind, hliteral⟩ := Prod.mk.inj hsign
  rw [Kind.name_ofName] at hliteral
  obtain ⟨otherLeft, hotherLeft, hreadLeft⟩ := hleft ls hls
  obtain ⟨otherRight, hotherRight, hreadRight⟩ := hright rs hrs
  have hmem : sign.kind ∈ Kind.infixOperators := by
    rw [hkind]
    simp only [List.mem_cons, List.not_mem_nil, or_false] at hoperator
    rcases hoperator with rfl | rfl | rfl | rfl | rfl | rfl | rfl | rfl <;> decide
  have hclimbs : Climbs BindingPower.lowest otherLeft [(sign, otherRight)]
      (.binary sign sign.literal otherLeft otherRight) [] :=
    .join (bounds_of_joining hmem).1 (.stop (by simp)) (.stop (by simp))
  have hexpression := (hreadLeft.chain.binary hmem hreadRight.chain).readsExpression hclimbs
  refine ⟨_, ?_, hexpression.grouped hopen hclose⟩
  simp [hotherLeft, hotherRight, hliteral]

theorem Reparsed.conditional (hcondition : Reparsed limit (.expression condition))
    (hconsequence : Reparsed limit (.block consequence)) :
    Reparsed limit (.expression (.conditional token condition consequence .missing)) := by
  intro ts hts
  simp only [Node.spelling, List.append_nil] at hts
  obtain ⟨word, cs, opening, closing, bs, rfl, hword, hopen, hcs, hclose, hbs⟩ :=
    exists_headed hts
  obtain ⟨other, hother, hread⟩ := hcondition cs hcs
  obtain ⟨block, hblock, hreadBlock⟩ := hconsequence bs hbs
  refine ⟨_, ?_, readsOperand_conditional (congrArg Prod.fst hword) hopen
    (hread.readsExpression (by decide)) hclose hreadBlock⟩
  simp [hother, hblock]

theorem Reparsed.choice (hwellFormed : WellFormed limit (.block alternative))
    (hcondition : Reparsed limit (.expression condition))
    (hconsequence : Reparsed limit (.block consequence))
    (halternative : Reparsed limit (.block alternative)) :
    Reparsed limit (.expression (.conditional token condition consequence alternative)) := by
  intro ts hts
  rw [spelling_choice hwellFormed] at hts
  obtain ⟨front, back, rfl, hfront, hback⟩ := List.map_eq_append_iff.1 hts
  obtain ⟨elseWord, es, rfl, helse, hes⟩ := List.map_eq_cons_iff.1 hback
  obtain ⟨word, cs, opening, closing, bs, rfl, hword, hopen, hcs, hclose, hbs⟩ :=
    exists_headed hfront
  obtain ⟨other, hother, hread⟩ := hcondition cs hcs
  obtain ⟨block, hblock, hreadBlock⟩ := hconsequence bs hbs
  obtain ⟨otherwise, hotherwise, hreadOther⟩ := halternative es hes
  refine ⟨_, ?_, readsOperand_choice (congrArg Prod.fst hword) hopen
    (hread.readsExpression (by decide)) hclose hreadBlock (congrArg Prod.fst helse) hreadOther⟩
  simp [hother, hblock, hotherwise]

/-- The tokens of a function, whatever the shapes of its body are. -/
theorem exists_function {parameters : List Node}
    (hparameters : ∀ parameter ∈ parameters, Reparsed limit (.parameter parameter))
    {spelled : List Shape}
    (hbody : ∀ ts : List Token, ts.map Token.shape = spelled →
      ∃ other, other.erase = body.erase ∧ ReadsBlock limit ts other)
    {ts : List Token}
    (hts : ts.map Token.shape = (.functionWord, "fn") :: Kind.leftParen.symbol ::
      commaShapes (Node.spellAll parameters) ++ Kind.rightParen.symbol :: spelled) :
    ∃ other, other.erase = (Node.function token parameters body).erase ∧
      ReadsOperand limit ts other := by
  obtain ⟨word, ps, opening, closing, bs, rfl, hword, hopen, hps, hclose, hbs⟩ :=
    exists_headed hts
  rw [Node.spellAll_eq_map] at hps
  obtain ⟨others, hothers, hlist⟩ := exists_separated hparameters hps
  obtain ⟨block, hblock, hreadBlock⟩ := hbody bs hbs
  refine ⟨_, ?_, readsOperand_function (congrArg Prod.fst hword) hopen hlist hclose hreadBlock⟩
  simp [erased_eq_of_forall₂ hothers, hblock]

theorem Reparsed.function {parameters : List Node} (hliteral : token.literal = "fn")
    (hparameters : ∀ parameter ∈ parameters, Reparsed limit (.parameter parameter))
    (hbody : Reparsed limit (.block body)) :
    Reparsed limit (.expression (.function token parameters body)) := by
  intro ts hts
  rw [Node.spelling, hliteral] at hts
  exact exists_function hparameters hbody hts

theorem Reparsed.call {arguments : List Node} (hcallee : Reparsed limit (.expression callee))
    (harguments : ∀ argument ∈ arguments, Reparsed limit (.expression argument)) :
    Reparsed limit (.expression (.call token callee arguments)) := by
  intro ts hts
  rw [Node.spelling, List.append_assoc] at hts
  obtain ⟨us, vs, rfl, hus, hvs⟩ := List.map_eq_append_iff.1 hts
  obtain ⟨opening, ws, closing, rfl, hopen, hws, hclose⟩ := exists_bracketed hvs
  obtain ⟨other, hother, hread⟩ := hcallee us hus
  obtain ⟨others, hothers, hlist⟩ := exists_expressions harguments hws
  refine ⟨_, ?_, hread.extend (readsExtension_call hlist hopen hclose)⟩
  simp [hother, hothers]

theorem Reparsed.array {elements : List Node}
    (helements : ∀ element ∈ elements, Reparsed limit (.expression element)) :
    Reparsed limit (.expression (.array token elements)) := by
  intro ts hts
  obtain ⟨opening, us, closing, rfl, hopen, hus, hclose⟩ := exists_bracketed hts
  obtain ⟨others, hothers, hlist⟩ := exists_expressions helements hus
  refine ⟨_, ?_, readsOperand_array hlist hopen hclose⟩
  simp [hothers]

theorem Reparsed.hash {pairs : List (Node × Node)}
    (hpairs : ∀ entry ∈ pairs, Reparsed limit (.pair entry.1 entry.2)) :
    Reparsed limit (.expression (.hash token pairs)) := by
  intro ts hts
  obtain ⟨opening, us, closing, rfl, hopen, hus, hclose⟩ := exists_bracketed hts
  rw [Node.spellPairs_eq_map] at hus
  obtain ⟨others, hothers, hlist⟩ := exists_separated hpairs hus
  refine ⟨_, ?_, readsOperand_hash hlist hopen hclose⟩
  simpa using erased_eq_of_forall₂ hothers

theorem Reparsed.index (htarget : Reparsed limit (.expression target))
    (hkey : Reparsed limit (.expression key)) :
    Reparsed limit (.expression (.index token target key)) := by
  intro ts hts
  have hsplit : ts.map Token.shape = Kind.leftParen.symbol :: (target.spelling ++
      (Kind.leftBracket.symbol :: key.spelling ++ [Kind.rightBracket.symbol])) ++
        [Kind.rightParen.symbol] := by
    simpa [Node.spelling] using hts
  obtain ⟨opening, us, closing, rfl, hopen, hus, hclose⟩ := exists_bracketed hsplit
  obtain ⟨vs, back, rfl, hvs, hback⟩ := List.map_eq_append_iff.1 hus
  obtain ⟨bracket, ks, last, rfl, hbracket, hks, hlast⟩ := exists_bracketed hback
  obtain ⟨otherTarget, hotherTarget, hreadTarget⟩ := htarget vs hvs
  obtain ⟨otherKey, hotherKey, hreadKey⟩ := hkey ks hks
  have hoperand := hreadTarget.extend
    (readsExtension_index (hreadKey.readsExpression (by decide)) hbracket hlast)
  refine ⟨_, ?_, (hoperand.readsExpression (by decide)).grouped hopen hclose⟩
  simp [hotherTarget, hotherKey]

theorem Reparsed.parameter (token : Token) (name : String) :
    Reparsed limit (.parameter (.identifier token name)) := by
  intro ts hts
  obtain ⟨token, rfl, hshape⟩ := List.map_eq_singleton_iff.1 hts
  obtain ⟨hkind, rfl⟩ := Prod.mk.inj hshape
  refine ⟨_, ?_, readsItem_parameter hkind⟩
  rfl

theorem Reparsed.pair (hkey : Reparsed limit (.expression key))
    (hvalue : Reparsed limit (.expression value)) : Reparsed limit (.pair key value) := by
  intro ts hts
  obtain ⟨ks, back, rfl, hks, hback⟩ := List.map_eq_append_iff.1 hts
  obtain ⟨colon, vs, rfl, hcolon, hvs⟩ := List.map_eq_cons_iff.1 hback
  obtain ⟨otherKey, hotherKey, hreadKey⟩ := hkey ks hks
  obtain ⟨otherValue, hotherValue, hreadValue⟩ := hvalue vs hvs
  refine ⟨(otherKey, otherValue), by simp [hotherKey, hotherValue], ?_⟩
  exact (hreadKey.readsExpression (by decide)).pair (colon.kind_of_shape hcolon)
    (hreadValue.readsExpression (by decide))

theorem Reparsed.letStatement {name : Token} {text : String} (hliteral : token.literal = "let")
    (hvalue : Reparsed limit (.expression value)) :
    Reparsed limit (.statement (.letStatement token (.identifier name text) value)) := by
  intro more ts hts
  simp only [Node.spelling, Node.isExpressionStatement, Bool.false_and, Bool.false_eq_true,
    if_false, List.append_nil, List.cons_append, List.nil_append] at hts
  obtain ⟨word, ts, rfl, hword, hts⟩ := List.map_eq_cons_iff.1 hts
  obtain ⟨ident, ts, rfl, hident, hts⟩ := List.map_eq_cons_iff.1 hts
  obtain ⟨sign, ts, rfl, hsign, hts⟩ := List.map_eq_cons_iff.1 hts
  obtain ⟨vs, back, rfl, hvs, hback⟩ := List.map_eq_append_iff.1 hts
  obtain ⟨semicolon, rfl, hsemicolon⟩ := List.map_eq_singleton_iff.1 hback
  obtain ⟨other, hother, hread⟩ := hvalue vs hvs
  obtain ⟨hidentKind, rfl⟩ := Prod.mk.inj hident
  rw [hliteral] at hword
  refine ⟨word :: ident :: sign :: vs, [semicolon], _, rfl, ?_,
    (hread.readsExpression (by decide)).letStatement
      (by simpa using semicolon.kind_of_shape hsemicolon) (congrArg Prod.fst hword) hidentKind
      (sign.kind_of_shape hsign), by simp⟩
  simp [hother]

theorem Reparsed.returnStatement (hliteral : token.literal = "return")
    (hvalue : Reparsed limit (.expression value)) :
    Reparsed limit (.statement (.returnStatement token value)) := by
  intro more ts hts
  simp only [Node.spelling, Node.isExpressionStatement, Bool.false_and, Bool.false_eq_true,
    if_false, List.append_nil, List.cons_append] at hts
  obtain ⟨word, ts, rfl, hword, hts⟩ := List.map_eq_cons_iff.1 hts
  obtain ⟨vs, back, rfl, hvs, hback⟩ := List.map_eq_append_iff.1 hts
  obtain ⟨semicolon, rfl, hsemicolon⟩ := List.map_eq_singleton_iff.1 hback
  obtain ⟨other, hother, hread⟩ := hvalue vs hvs
  rw [hliteral] at hword
  refine ⟨word :: vs, [semicolon], _, rfl, ?_,
    (hread.readsExpression (by decide)).returnStatement
      (by simpa using semicolon.kind_of_shape hsemicolon) (congrArg Prod.fst hword), by simp⟩
  simp [hother]

theorem Reparsed.expressionStatement (hvalue : Reparsed limit (.expression value)) :
    Reparsed limit (.statement (.expressionStatement token value)) := by
  intro more ts hts
  obtain ⟨vs, semicolons, rfl, hvs, hsemicolons⟩ := List.map_eq_append_iff.1 hts
  obtain ⟨other, hother, hread⟩ := hvalue vs hvs
  have hall : ∀ token ∈ semicolons, token.kind = .semicolon := by
    intro semicolon hmem
    have hshape := List.mem_map_of_mem (f := Token.shape) hmem
    rw [hsemicolons] at hshape
    cases more with
    | false => simp at hshape
    | true => exact semicolon.kind_of_shape (by simpa [Node.isExpressionStatement] using hshape)
  obtain ⟨first, others, rfl, hstatement⟩ :=
    (hread.readsExpression (by decide)).expressionStatement hall
  refine ⟨_, semicolons, _, rfl, ?_, hstatement, ?_⟩
  · simp [hother]
  · rintro rfl rfl
    simp [Node.isExpressionStatement] at hsemicolons

theorem Reparsed.block {statements : List Node}
    (hstatements : ∀ statement ∈ statements, Reparsed limit (.statement statement)) :
    Reparsed limit (.block (.block token statements)) := by
  intro ts hts
  obtain ⟨opening, us, closing, rfl, hopen, hus, hclose⟩ := exists_bracketed hts
  obtain ⟨others, hothers, hsequence⟩ := exists_sequence hstatements hus
  refine ⟨_, ?_, hsequence.readsBlock hopen hclose⟩
  simp [hothers]

end

/-- The tokens of a well-formed phrase are read as that phrase, but for the tokens in it. -/
theorem reparsed_of_wellFormed {phrase : Phrase} (h : WellFormed limit phrase) :
    Reparsed limit phrase := by
  induction h with
  | identifier => exact .identifier _ _
  | integer hwritten => exact .integer hwritten
  | string => exact .string _ _
  | boolean hliteral => exact .boolean hliteral
  | prefixed hoperator _ ih => exact .prefixed hoperator ih
  | binary hoperator _ _ ihLeft ihRight => exact .binary hoperator ihLeft ihRight
  | conditional _ _ ihCondition ihBlock => exact .conditional ihCondition ihBlock
  | choice _ _ halternative ihCondition ihBlock ihOther =>
      exact .choice halternative ihCondition ihBlock ihOther
  | function hliteral _ _ ihParameters ihBody => exact .function hliteral ihParameters ihBody
  | call _ _ ihCallee ihArguments => exact .call ihCallee ihArguments
  | array _ ih => exact .array ih
  | hash _ ih => exact .hash ih
  | index _ _ ihTarget ihKey => exact .index ihTarget ihKey
  | parameter => exact .parameter _ _
  | pair _ _ ihKey ihValue => exact .pair ihKey ihValue
  | letStatement hliteral _ _ ih => exact .letStatement hliteral ih
  | returnStatement hliteral _ ih => exact .returnStatement hliteral ih
  | expressionStatement _ ih => exact .expressionStatement ih
  | block _ ih => exact .block ih

end Parser

/-! ## Programs -/

/-- A source whose tokens are those of a sequence of statements is read without errors. -/
theorem Parse.exists_of_sequence {source : String} {limit : Numeral.DigitLimit}
    {good : List Node → Prop}
    (h : ∀ ts : List Token, ts.map Token.shape = shapes source.toList →
      ∃ nodes, good nodes ∧ Parser.Sequence limit ts nodes) :
    ∃ nodes, good nodes ∧
      Parse.ofSource source limit = ⟨.program (Feed.ofSource source).current nodes, []⟩ := by
  obtain ⟨ts, last, hscan, hshapes, -⟩ := Token.scan_eq source
  obtain ⟨nodes, hgood, hsequence⟩ := h ts hshapes
  have hfeed : Feed.ofSource source = ⟨ts ++ [Token.endAt last], last⟩ := by
    simp [Feed.ofSource, hscan, Token.endAt]
  exact ⟨nodes, hgood, Parse.ofFeed_of_sequence hsequence hfeed⟩

/-- A source whose tokens are those of one expression is read as the program of that expression. -/
theorem Parse.exists_of_expression {source : String} {limit : Numeral.DigitLimit}
    {good : Node → Prop}
    (h : ∀ ts : List Token, ts.map Token.shape = shapes source.toList →
      ∃ node, good node ∧ Parser.ReadsExpression limit BindingPower.lowest ts node) :
    ∃ first node, good node ∧ Parse.ofSource source limit =
      ⟨.program (Feed.ofSource source).current [.expressionStatement first node], []⟩ := by
  obtain ⟨nodes, ⟨first, node, rfl, hgood⟩, hparse⟩ :
      ∃ nodes, (∃ first node, nodes = [.expressionStatement first node] ∧ good node) ∧
        Parse.ofSource source limit = ⟨.program (Feed.ofSource source).current nodes, []⟩ := by
    apply Parse.exists_of_sequence
    intro ts hts
    obtain ⟨node, hgood, hread⟩ := h ts hts
    have hnone : ∀ token ∈ ([] : List Token), token.kind = .semicolon := List.forall_mem_nil _
    obtain ⟨first, others, rfl, hstatement⟩ := hread.expressionStatement hnone
    have hsequence := Parser.Sequence.more hstatement .none (by simp)
    rw [List.append_nil, List.append_nil] at hsequence
    exact ⟨_, ⟨first, node, rfl, hgood⟩, hsequence⟩
  exact ⟨first, node, hgood, hparse⟩

/-- The canonical text of a well-formed program is read without errors, as the same tree. -/
theorem WellFormedProgram.parse_render {limit : Numeral.DigitLimit} {program : Node}
    (h : WellFormedProgram limit program) :
    (Parse.ofSource program.render limit).errors = [] ∧
      (Parse.ofSource program.render limit).program.erase = program.erase := by
  cases program with
  | program token statements =>
      obtain ⟨others, hothers, hparse⟩ :
          ∃ others, others.map Node.erase = statements.map Node.erase ∧
            Parse.ofSource (Node.program token statements).render limit =
              ⟨.program (Feed.ofSource (Node.program token statements).render).current others,
                []⟩ := by
        apply Parse.exists_of_sequence
        intro ts hts
        rw [h.shapes_render] at hts
        exact Parser.exists_sequence
          (fun statement hmem => Parser.reparsed_of_wellFormed (h statement hmem)) hts
      rw [hparse]
      exact ⟨rfl, by simp [Node.erase, hothers]⟩
  | _ => exact h.elim

/-- The program that is read from a source text is well formed, with or without errors. -/
theorem Parse.wellFormed_ofSource (source : String) (limit : Numeral.DigitLimit) :
    WellFormedProgram limit (Parse.ofSource source limit).program := by
  obtain ⟨ts, last, hfeed, -, hall⟩ := Feed.ofSource_eq source
  have hlexical : ∀ token ∈ (Feed.ofSource source).ahead, token.Lexical := by
    rw [hfeed]
    intro token hmem
    rcases List.mem_append.1 hmem with hmem | hmem
    · exact (hall token hmem).1
    · obtain rfl := List.mem_singleton.1 hmem
      rfl
  obtain ⟨reply, -, hparse, hnodes⟩ := Parse.ofFeed_reply limit hlexical
  rw [Parse.ofSource, hparse]
  intro statement hmem
  cases hvalue : reply.value? with
  | none => simp [hvalue] at hmem
  | some nodes => exact (hnodes nodes hvalue statement (by simpa [hvalue] using hmem)).wellFormed

/-- Canonical text is inverted by the parser. Every well-formed program is read back from its text
without errors, and so is what the parser makes of any source text, be it with errors. -/
theorem Parse.ofSource_render (limit : Numeral.DigitLimit) :
    (∀ program, WellFormedProgram limit program →
      (Parse.ofSource program.render limit).errors = [] ∧
        (Parse.ofSource program.render limit).program.erase = program.erase) ∧
    (∀ source,
      (Parse.ofSource (Parse.ofSource source limit).program.render limit).errors = [] ∧
        (Parse.ofSource (Parse.ofSource source limit).program.render limit).program.erase =
          (Parse.ofSource source limit).program.erase) :=
  ⟨fun _ hprogram => hprogram.parse_render,
    fun source => (Parse.wellFormed_ofSource source limit).parse_render⟩

/-- A program with a function of two parameters, a name as a statement, and a choice whose condition
compares the value of a call with a negative number. -/
def Node.scaling : Node :=
  .program .erased
    [.letStatement ⟨.letWord, "let", .nowhere⟩ (.identifier .erased "scale")
      (.function ⟨.functionWord, "fn", .nowhere⟩
        [.identifier .erased "x", .identifier .erased "y"]
        (.block .erased
          [.returnStatement ⟨.returnWord, "return", .nowhere⟩
            (.binary .erased "+" (.identifier .erased "x")
              (.binary .erased "*" (.identifier .erased "y")
                (.integer ⟨.integer, "007", .nowhere⟩ 7)))])),
    .expressionStatement .erased (.identifier .erased "scale"),
    .expressionStatement .erased
      (.conditional .erased
        (.binary .erased "<"
          (.call .erased (.identifier .erased "scale")
            [.integer ⟨.integer, "1", .nowhere⟩ 1, .integer ⟨.integer, "20", .nowhere⟩ 20])
          (.prefixed .erased "-" (.integer ⟨.integer, "3", .nowhere⟩ 3)))
        (.block .erased [.expressionStatement .erased (.string .erased "few")])
        (.block .erased []))]

/-- Its text puts every operation in brackets, and a semicolon after the name. -/
example : Node.scaling.render = "let scale = fn(x, y) \x7b return (x + (y * 007)); \x7d;scale;" ++
    "if ((scale(1, 20) < (-3))) \x7b \"few\" \x7d else \x7b \x7d" := by
  decide

theorem wellFormedProgram_scaling : WellFormedProgram Numeral.usualLimit .scaling := by
  have hscale : IsName "scale" :=
    ⟨⟨'s', _, rfl, by decide, List.all_eq_true.1 (by decide)⟩, by decide⟩
  have hx : IsName "x" := ⟨⟨'x', [], rfl, by decide, by simp⟩, by decide⟩
  have hy : IsName "y" := ⟨⟨'y', [], rfl, by decide, by simp⟩, by decide⟩
  have hseven : Numeral.Written Numeral.usualLimit "007" 7 :=
    ⟨⟨by decide, List.all_eq_true.1 (by decide)⟩, by decide, by decide, by decide⟩
  have hplain (n : Nat) (hn : n < 0x8000000000000000) :
      Numeral.Written Numeral.usualLimit n.repr n := Numeral.written_repr (by decide) hn
  simp only [Node.scaling, WellFormedProgram, List.mem_cons, List.not_mem_nil, or_false,
    forall_eq_or_imp, forall_eq]
  refine ⟨.letStatement rfl hscale (.function rfl ?_ (.block ?_)),
    .expressionStatement (.identifier hscale),
    .expressionStatement (.choice (.binary (by decide) (.call (.identifier hscale) ?_)
      (.prefixed (by decide) (.integer (hplain 3 (by decide))))) (.block ?_)
      (.block (by simp)))⟩ <;>
    simp only [List.mem_cons, List.not_mem_nil, or_false, forall_eq_or_imp, forall_eq]
  · exact ⟨.parameter hx, .parameter hy⟩
  · exact .returnStatement rfl (.binary (by decide) (.identifier hx)
      (.binary (by decide) (.identifier hy) (.integer hseven)))
  · exact ⟨.integer (hplain 1 (by decide)), .integer (hplain 20 (by decide))⟩
  · exact .expressionStatement (.string (by decide))

/-- The program is read back, with the zeros before its seven. -/
theorem Parse.ofSource_render_scaling :
    WellFormedProgram Numeral.usualLimit .scaling ∧
      (Parse.ofSource Node.scaling.render).errors = [] ∧
        (Parse.ofSource Node.scaling.render).program.erase = Node.scaling.erase :=
  ⟨wellFormedProgram_scaling,
    (Parse.ofSource_render Numeral.usualLimit).1 .scaling wellFormedProgram_scaling⟩

/-! ## Overlong numerals -/

/-- A program that is one number, a row of zeros. -/
def Node.zeros (count : Nat) : Node :=
  .program .erased
    [.expressionStatement .erased
      (.integer ⟨.integer, String.ofList (List.replicate count '0'), .nowhere⟩ 0)]

theorem Numeral.decimal_zeros (count : Nat) : decimal (List.replicate count '0') = 0 := by
  induction count with
  | zero => rfl
  | succ count ih =>
      rw [List.replicate_succ, decimal_cons, ih, Nat.add_zero, Nat.mul_eq_zero]
      exact .inl rfl

theorem Numeral.written_zeros {count : Nat} (hpos : 0 < count) :
    Numeral.Written none (String.ofList (List.replicate count '0')) 0 := by
  refine ⟨⟨by simp; omega, fun c hmem => ?_⟩, by simp, ?_, by decide⟩
  · rw [String.toList_ofList] at hmem
    rw [List.eq_of_mem_replicate hmem]
    decide
  · rw [String.toList_ofList, decimal_zeros]
    rfl

theorem wellFormedProgram_zeros {count : Nat} (hpos : 0 < count) :
    WellFormedProgram none (.zeros count) := by
  intro statement hmem
  obtain rfl := List.mem_singleton.1 hmem
  exact .expressionStatement (.integer (Numeral.written_zeros hpos))

/-- A numeral with more digits than may be read is not read. -/
theorem Parse.errors_zeros_ne_nil {count most : Nat} (hpos : 0 < count) (hmost : most < count) :
    (Parse.ofSource (Node.zeros count).render (some most)).errors ≠ [] := by
  intro herrors
  obtain ⟨nodes, rest, hyields⟩ := Parse.errors_eq_nil_iff.1 herrors
  have hderives := Parse.derives_of_yields hyields
  obtain ⟨ts, last, hscan, hshapes, -⟩ := Token.scan_eq (Node.zeros count).render
  rw [(wellFormedProgram_zeros hpos).shapes_render] at hshapes
  obtain ⟨token, rfl, hshape⟩ := List.map_eq_singleton_iff.1 hshapes
  obtain ⟨hkind, hliteral⟩ := Prod.mk.inj hshape
  rw [hscan, List.dropLast_concat] at hderives
  obtain ⟨value, hwritten⟩ := hderives.exists_value token List.mem_cons_self hkind
  have hle := hwritten.fits most rfl
  rw [hliteral, String.length_ofList, List.length_replicate] at hle
  omega

/-- If numerals may have any length, there is a well-formed program that is not read back. -/
theorem Parse.not_forall_read_back :
    ¬ ∀ program, WellFormedProgram none program → (Parse.ofSource program.render).errors = [] :=
  fun h => Parse.errors_zeros_ne_nil (by decide) (by decide)
    (h (.zeros 4301) (wellFormedProgram_zeros (by decide)))

end MonkeyLanguage
