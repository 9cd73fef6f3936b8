-- SUMMARY: What the canonical text of a tree is scanned into.
import MonkeyLanguage.Node.Render
import MonkeyLanguage.Proofs.Canonical.WellFormed
import MonkeyLanguage.Proofs.Scanning.Pieces

/-!
# Spelling

`Node.spelling` is the canonical text of a tree as shapes of tokens. Scanning the text of a
well-formed tree gives just these: the texts of neighbouring tokens never run into one another.
-/

namespace MonkeyLanguage

/-- Shapes with commas between them. -/
def commaShapes (spelled : List (List Shape)) : List Shape :=
  [Kind.comma.symbol].intercalate spelled

namespace Node

mutual

/-- The shapes of the tokens in the canonical text of a tree. -/
def spelling : Node → List Shape
  | program _ statements => spellStatements statements
  | letStatement token name value =>
    (Kind.ofWord token.literal, token.literal) :: name.spelling ++
      Kind.assign.symbol :: value.spelling ++ [Kind.semicolon.symbol]
  | returnStatement token value =>
    (Kind.ofWord token.literal, token.literal) :: value.spelling ++ [Kind.semicolon.symbol]
  | expressionStatement _ value => value.spelling
  | block _ statements =>
    Kind.leftBrace.symbol :: spellStatements statements ++ [Kind.rightBrace.symbol]
  | identifier _ name => [(.identifier, name)]
  | integer token _ => [(.integer, token.literal)]
  | string _ text => [(.string, text)]
  | boolean token _ => [(Kind.ofWord token.literal, token.literal)]
  | prefixed _ operator right =>
    Kind.leftParen.symbol :: (Kind.ofName operator).symbol :: right.spelling ++
      [Kind.rightParen.symbol]
  | binary _ operator left right =>
    Kind.leftParen.symbol :: left.spelling ++ (Kind.ofName operator).symbol :: right.spelling ++
      [Kind.rightParen.symbol]
  | conditional _ condition consequence alternative =>
    (.ifWord, "if") :: Kind.leftParen.symbol :: condition.spelling ++
      Kind.rightParen.symbol :: consequence.spelling ++
        match alternative with
        | missing => []
        | _ => (.elseWord, "else") :: alternative.spelling
  | function token parameters body =>
    (Kind.ofWord token.literal, token.literal) :: Kind.leftParen.symbol ::
      commaShapes (spellAll parameters) ++
      Kind.rightParen.symbol :: body.spelling
  | call _ callee arguments =>
    callee.spelling ++ Kind.leftParen.symbol :: commaShapes (spellAll arguments) ++
      [Kind.rightParen.symbol]
  | array _ elements =>
    Kind.leftBracket.symbol :: commaShapes (spellAll elements) ++ [Kind.rightBracket.symbol]
  | hash _ pairs =>
    Kind.leftBrace.symbol :: commaShapes (spellPairs pairs) ++ [Kind.rightBrace.symbol]
  | index _ target key =>
    Kind.leftParen.symbol :: target.spelling ++ Kind.leftBracket.symbol :: key.spelling ++
      [Kind.rightBracket.symbol, Kind.rightParen.symbol]
  | missing => []
  | foreign => []

/-- Statements, with a semicolon behind each that needs one before the next. -/
def spellStatements : List Node → List Shape
  | [] => []
  | statement :: rest =>
    statement.spelling ++
      (if statement.isExpressionStatement && !rest.isEmpty then [Kind.semicolon.symbol] else []) ++
        spellStatements rest

/-- The shapes of several trees. -/
def spellAll : List Node → List (List Shape)
  | [] => []
  | node :: rest => node.spelling :: spellAll rest

/-- The shapes of key and value pairs. -/
def spellPairs : List (Node × Node) → List (List Shape)
  | [] => []
  | (key, value) :: rest =>
    (key.spelling ++ Kind.colon.symbol :: value.spelling) :: spellPairs rest

end

end Node

/-- The text is scanned into the shapes, whatever is set apart behind it. -/
def Spells (text : String) (spelled : List Shape) : Prop :=
  ∀ rest, Apart rest → shapes (text.toList ++ rest) = spelled ++ shapes rest

/-- The text cannot be taken for the end of an operator before it. -/
def NoEquals (text : String) : Prop :=
  ∃ c rest, text.toList = c :: rest ∧ c ≠ '='

/-- The text of a statement is scanned into its shapes; only that of an expression has to be set
apart from what follows. -/
def SpellsStatement (statement : Node) : Prop :=
  ∀ rest, (statement.isExpressionStatement → Apart rest) →
    shapes (statement.render.toList ++ rest) = statement.spelling ++ shapes rest

/-- The text of the phrase is scanned into its shapes. -/
def Spelled : Phrase → Prop
  | .expression node => Spells node.render node.spelling ∧ NoEquals node.render
  | .parameter node => Spells node.render node.spelling
  | .pair key value => Spells (key.render ++ ": " ++ value.render)
      (key.spelling ++ Kind.colon.symbol :: value.spelling)
  | .list _ => True
  | .statement node => SpellsStatement node
  | .statements _ => True
  | .block node => Spells node.render node.spelling

theorem orNothing_of_wellFormed {limit : Numeral.DigitLimit} {node : Node} {text : String}
    (h : WellFormed limit (.expression node)) : node.orNothing text = text := by
  cases h <;> rfl

/-! ## Lists -/

theorem spells_commaSeparated {texts : List String} {spelled : List (List Shape)}
    (h : List.Forall₂ Spells texts spelled) :
    Spells (Text.commaSeparated texts) (commaShapes spelled) := by
  induction h with
  | nil => exact fun rest _ => by simp [Text.commaSeparated, commaShapes]
  | @cons text first texts spelled hfirst hrest ih =>
      intro rest hapart
      cases hrest with
      | nil => simpa [Text.commaSeparated, commaShapes] using hfirst rest hapart
      | @cons next second texts spelled _ _ =>
          have hothers := ih rest hapart
          simp only [Text.commaSeparated, commaShapes] at hothers
          simp only [Text.commaSeparated, commaShapes, String.intercalate_cons_cons,
            List.intercalate_cons_cons, String.toList_append, List.append_assoc]
          rw [hfirst _ (by simp; decide)]
          simp only [String.reduceToList, List.cons_append, List.nil_append]
          rw [shapes_delimiter (by decide) (by decide), shapes_blank (by decide), hothers]
          rfl

theorem forall_spellAll {nodes : List Node} (h : ∀ node ∈ nodes, Spells node.render node.spelling) :
    List.Forall₂ Spells (Node.renderAll nodes) (Node.spellAll nodes) := by
  induction nodes with
  | nil => exact .nil
  | cons node nodes ih =>
      obtain ⟨hnode, hrest⟩ := List.forall_mem_cons.1 h
      exact .cons hnode (ih hrest)

theorem forall_spellPairs {pairs : List (Node × Node)}
    (h : ∀ pair ∈ pairs, Spelled (.pair pair.1 pair.2)) :
    List.Forall₂ Spells (Node.renderPairs pairs) (Node.spellPairs pairs) := by
  induction pairs with
  | nil => exact .nil
  | cons pair pairs ih =>
      obtain ⟨hpair, hrest⟩ := List.forall_mem_cons.1 h
      exact .cons hpair (ih hrest)

theorem shapes_blanks {blanks : List Char} (h : ∀ c ∈ blanks, Text.isBlank c) (rest : List Char) :
    shapes (blanks ++ rest) = shapes rest := by
  induction blanks with
  | nil => rfl
  | cons c blanks ih =>
      rw [List.cons_append, shapes_blank (h c List.mem_cons_self)]
      exact ih fun d hmem => h d (List.mem_cons_of_mem _ hmem)

theorem spells_statements (separator : String) (hblank : ∀ c ∈ separator.toList, Text.isBlank c)
    {statements : List Node} (h : ∀ statement ∈ statements, SpellsStatement statement) :
    Spells (separator.intercalate (Node.renderStatements statements))
      (Node.spellStatements statements) := by
  intro rest hrest
  induction statements with
  | nil => simp [Node.renderStatements, Node.spellStatements]
  | cons statement statements ih =>
      have hstatement := h statement List.mem_cons_self
      cases statements with
      | nil =>
          simpa [Node.renderStatements, Node.spellStatements] using hstatement rest fun _ => hrest
      | cons next statements =>
          have hothers := ih fun other hmem => h other (List.mem_cons_of_mem _ hmem)
          simp only [Node.renderStatements] at hothers
          simp only [Node.renderStatements, Node.spellStatements, String.intercalate_cons_cons,
            String.toList_append, List.append_assoc]
          cases hexpression : statement.isExpressionStatement with
          | true =>
              simp only [Bool.true_and, List.isEmpty_cons, Bool.not_false, if_true]
              rw [hstatement _ fun _ => by simp; decide]
              simp only [String.reduceToList, List.cons_append, List.nil_append]
              rw [shapes_delimiter (by decide) (by decide), shapes_blanks hblank, hothers]
              simp [Node.spellStatements, Kind.ofSymbol?]
          | false =>
              rw [hstatement _ (by simp [hexpression])]
              simp only [Bool.false_and, Bool.false_eq_true, if_false, String.toList_empty,
                List.nil_append]
              rw [shapes_blanks hblank, hothers]
              simp [Node.spellStatements]

/-! ## Phrases -/

theorem shapes_operator {operator : String}
    (h : operator ∈ ["!", "-", "+", "*", "/", "<", ">", "==", "!="]) (rest : List Char)
    (hrest : rest.head? ≠ some '=') :
    shapes (operator.toList ++ rest) = (Kind.ofName operator).symbol :: shapes rest := by
  simp only [List.mem_cons, List.not_mem_nil, or_false] at h
  rcases h with rfl | rfl | rfl | rfl | rfl | rfl | rfl | rfl | rfl
  case inr.inr.inr.inr.inr.inr.inr.inl => exact shapes_equal rest
  case inr.inr.inr.inr.inr.inr.inr.inr => exact shapes_notEqual rest
  all_goals exact shapes_symbol rfl fun _ => hrest

theorem spells_name {name : String} (h : IsName name) : Spells name [(.identifier, name)] := by
  intro rest hrest
  rw [shapes_word h.1 hrest, String.ofList_toList, h.2]
  rfl

theorem noEquals_of_isWord {text : String} (h : IsWord text.toList) : NoEquals text := by
  obtain ⟨c, rest, heq, hstart, -⟩ := h
  refine ⟨c, rest, heq, ?_⟩
  rintro rfl
  exact absurd hstart (by decide)

theorem spells_pair {key value : String} {spelledKey spelledValue : List Shape}
    (hkey : Spells key spelledKey) (hvalue : Spells value spelledValue) :
    Spells (key ++ ": " ++ value) (spelledKey ++ Kind.colon.symbol :: spelledValue) := by
  intro rest hrest
  simp [shapes_delimiter, shapes_space, hkey _, hvalue _, hrest, isWordPart, Kind.ofSymbol?]

theorem spells_array {texts : List String} {spelled : List (List Shape)}
    (h : List.Forall₂ Spells texts spelled) :
    Spells ("[" ++ Text.commaSeparated texts ++ "]")
      (Kind.leftBracket.symbol :: commaShapes spelled ++ [Kind.rightBracket.symbol]) := by
  intro rest _
  have helements := spells_commaSeparated h
  simp [shapes_delimiter, helements _, isWordPart, Kind.ofSymbol?]

theorem spells_hash {texts : List String} {spelled : List (List Shape)}
    (h : List.Forall₂ Spells texts spelled) :
    Spells ("\x7b" ++ Text.commaSeparated texts ++ "\x7d")
      (Kind.leftBrace.symbol :: commaShapes spelled ++ [Kind.rightBrace.symbol]) := by
  intro rest _
  have hpairs := spells_commaSeparated h
  simp [shapes_delimiter, hpairs _, isWordPart, Kind.ofSymbol?]

/-- A function, whatever text its body has. -/
theorem spells_function {word body : String} (hword : word ∈ keywords) {texts : List String}
    {spelled : List (List Shape)} (hparameters : List.Forall₂ Spells texts spelled)
    {spelledBody : List Shape} (hbody : Spells body spelledBody) :
    Spells (word ++ "(" ++ Text.commaSeparated texts ++ ") " ++ body)
      ((Kind.ofWord word, word) :: Kind.leftParen.symbol :: commaShapes spelled ++
        Kind.rightParen.symbol :: spelledBody) := by
  intro rest hrest
  have hnames := spells_commaSeparated hparameters
  simp [shapes_keyword hword, shapes_delimiter, shapes_space, hnames _, hbody _, hrest, isWordPart,
    Kind.ofSymbol?]

/-- The canonical text of a well-formed phrase is scanned into its shapes. -/
theorem WellFormed.spelled {limit : Numeral.DigitLimit} {phrase : Phrase}
    (h : WellFormed limit phrase) : Spelled phrase := by
  induction h with
  | identifier hname => exact ⟨spells_name hname, noEquals_of_isWord hname.1⟩
  | @integer token value hwritten =>
      obtain ⟨hne, hall⟩ := hwritten.digits
      obtain ⟨c, rest, heq⟩ := List.exists_cons_of_ne_nil hne
      refine ⟨fun rest hrest => ?_, c, rest, heq, ?_⟩
      · rw [Node.render, shapes_digits hwritten.digits hrest, String.ofList_toList]
        rfl
      · rintro rfl
        exact absurd (hall '=' (by simp [heq])) (by decide)
  | @string token text hquote =>
      refine ⟨fun rest _ => ?_, '"', _, by simp [Node.render]; rfl, by decide⟩
      simpa [Node.render, Node.spelling] using shapes_string hquote rest
  | @boolean token value hliteral =>
      have hkeyword : token.literal ∈ keywords := by
        cases value <;> simp [hliteral, keywords]
      exact ⟨fun rest hrest => shapes_keyword hkeyword hrest,
        noEquals_of_isWord (isWord_of_keyword hkeyword)⟩
  | @prefixed token operator right hoperator hright ih =>
      obtain ⟨hspells, c, text, htext, hc⟩ := ih
      refine ⟨fun rest hrest => ?_, '(', _, by simp [Node.render]; rfl, by decide⟩
      have hmem : operator ∈ ["!", "-", "+", "*", "/", "<", ">", "==", "!="] :=
        List.mem_append_left _ hoperator
      have hoperands := shapes_operator hmem (right.render.toList ++ ')' :: rest)
        (by simpa [htext] using hc)
      simp [Node.render, Node.spelling, orNothing_of_wellFormed hright, shapes_delimiter,
        hoperands, hspells _, isWordPart, Kind.ofSymbol?]
  | @binary token operator left right hoperator hleft hright ihLeft ihRight =>
      refine ⟨fun rest hrest => ?_, '(', _, by simp [Node.render]; rfl, by decide⟩
      have hmem : operator ∈ ["!", "-", "+", "*", "/", "<", ">", "==", "!="] := by
        revert operator
        decide
      have hoperands (rest : List Char) := shapes_operator hmem (' ' :: rest) (by simp)
      simp [Node.render, Node.spelling, orNothing_of_wellFormed hright, shapes_delimiter,
        shapes_space, hoperands, ihLeft.1 _, ihRight.1 _, isWordPart, Kind.ofSymbol?]
  | @conditional token condition consequence _ _ ihCondition ihBlock =>
      refine ⟨fun rest hrest => ?_, 'i', _, by simp [Node.render]; rfl, by decide⟩
      simp [Node.render, Node.spelling, Node.orNothing, shapes_ifWord, shapes_delimiter,
        shapes_space, ihCondition.1 _, ihBlock _, hrest, isWordPart, Kind.ofSymbol?]
  | @choice token condition consequence alternative _ _ hother ihCondition ihBlock ihOther =>
      refine ⟨fun rest hrest => ?_, 'i', _, by simp [Node.render]; rfl, by decide⟩
      cases hother
      simp [Node.render, Node.spelling, Node.orNothing, shapes_ifWord, shapes_elseWord,
        shapes_delimiter, shapes_space, ihCondition.1 _, ihBlock _, ihOther _, hrest,
        isWordPart, Kind.ofSymbol?]
  | @function token parameters body hliteral _ _ ihParameters ihBody =>
      have hkeyword : token.literal ∈ keywords := by simp [hliteral, keywords]
      refine ⟨?_, ?_⟩
      · rw [Node.render, Node.spelling]
        exact spells_function hkeyword (forall_spellAll ihParameters) ihBody
      · obtain ⟨c, text, htext, hc⟩ := noEquals_of_isWord (isWord_of_keyword hkeyword)
        exact ⟨c, _, by simp [Node.render, htext]; rfl, hc⟩
  | @call token callee arguments _ _ ihCallee ihArguments =>
      have harguments := spells_commaSeparated (forall_spellAll fun node hmem =>
        (ihArguments node hmem).1)
      refine ⟨fun rest hrest => ?_, ?_⟩
      · simp [Node.render, Node.spelling, shapes_delimiter, ihCallee.1 _, harguments _, isWordPart,
          Kind.ofSymbol?]
      · obtain ⟨-, c, text, htext, hc⟩ := ihCallee
        exact ⟨c, _, by simp [Node.render, htext]; rfl, hc⟩
  | @array token elements _ ih =>
      refine ⟨?_, '[', _, by simp [Node.render]; rfl, by decide⟩
      rw [Node.render, Node.spelling]
      exact spells_array (forall_spellAll fun node hmem => (ih node hmem).1)
  | @hash token pairs _ ih =>
      refine ⟨?_, '{', _, by simp [Node.render]; rfl, by decide⟩
      rw [Node.render, Node.spelling]
      exact spells_hash (forall_spellPairs ih)
  | @index token target key _ _ ihTarget ihKey =>
      refine ⟨fun rest hrest => ?_, '(', _, by simp [Node.render]; rfl, by decide⟩
      simp [Node.render, Node.spelling, shapes_delimiter, ihTarget.1 _, ihKey.1 _, isWordPart,
        Kind.ofSymbol?]
  | parameter hname => exact spells_name hname
  | pair _ _ ihKey ihValue => exact spells_pair ihKey.1 ihValue.1
  | @letStatement token other name value hliteral hname hvalue ih =>
      intro rest _
      have hkeyword : token.literal ∈ keywords := by simp [hliteral, keywords]
      have hassign {rest : List Char} :
          shapes ('=' :: ' ' :: rest) = Kind.assign.symbol :: shapes (' ' :: rest) :=
        shapes_symbol rfl (by simp)
      simp [Node.render, Node.spelling, orNothing_of_wellFormed hvalue, shapes_keyword hkeyword,
        shapes_delimiter, shapes_space, spells_name hname _, hassign, ih.1 _,
        isWordPart, Kind.ofSymbol?]
  | @returnStatement token value hliteral hvalue ih =>
      intro rest _
      have hkeyword : token.literal ∈ keywords := by simp [hliteral, keywords]
      simp [Node.render, Node.spelling, orNothing_of_wellFormed hvalue, shapes_keyword hkeyword,
        shapes_delimiter, shapes_space, ih.1 _, isWordPart, Kind.ofSymbol?]
  | @expressionStatement token value hvalue ih =>
      intro rest hrest
      simpa [Node.render, Node.spelling, orNothing_of_wellFormed hvalue] using ih.1 rest (hrest rfl)
  | @block token statements _ ih =>
      intro rest hrest
      have hstatements := spells_statements " " (by simp [Text.isBlank]) ih
      cases statements with
      | nil =>
          simp [Node.render, Node.spelling, Node.spellStatements, shapes_delimiter, shapes_space,
            Kind.ofSymbol?]
      | cons first others =>
          simp [-String.toList_intercalate, Node.render, Node.spelling, hstatements _,
            shapes_delimiter, shapes_space, isWordPart, Kind.ofSymbol?]

theorem join_eq_intercalate (texts : List String) : String.join texts = "".intercalate texts := by
  induction texts with
  | nil => simp
  | cons text texts ih =>
      cases texts with
      | nil => simp
      | cons next texts => simp_all [String.join_cons]

/-- The canonical text of a well-formed program is scanned into its shapes. -/
theorem WellFormedProgram.shapes_render {limit : Numeral.DigitLimit} {program : Node}
    (h : WellFormedProgram limit program) : shapes program.render.toList = program.spelling := by
  cases program with
  | program token statements =>
      have hspells := spells_statements "" (by simp) fun s hmem => (h s hmem).spelled
      have hend := hspells [] apart_nil
      rw [List.append_nil, shapes_nil, List.append_nil] at hend
      rw [Node.render, join_eq_intercalate, hend]
      rfl
  | _ => exact h.elim

end MonkeyLanguage
