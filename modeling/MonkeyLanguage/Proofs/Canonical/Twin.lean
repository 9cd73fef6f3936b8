-- SUMMARY: Trees that differ only in tokens that nothing is made of.
import MonkeyLanguage.Proofs.Alike.Value
import MonkeyLanguage.Proofs.Canonical.Reparse

/-!
# Twins

The literals of some tokens are printed: those of numbers and truth values, and the words that
`let` and `return` statements and functions start with. Two trees are twins if they are the same
but for their tokens, and the same literals are printed. Then they have the same canonical text,
and well-formed trees are twins if they are the same without their tokens.
-/

namespace MonkeyLanguage

namespace Node

/-- The trees are the same but for tokens, and tokens that are printed have the same literals. -/
inductive Twin : Node → Node → Prop where
  | program {token token' : Token} {statements statements' : List Node} :
      statements.length = statements'.length →
      (∀ pair ∈ statements.zip statements', Twin pair.1 pair.2) →
      Twin (.program token statements) (.program token' statements')
  | letStatement {token token' : Token} {name name' value value' : Node} :
      token.literal = token'.literal → Twin name name' → Twin value value' →
      Twin (.letStatement token name value) (.letStatement token' name' value')
  | returnStatement {token token' : Token} {value value' : Node} :
      token.literal = token'.literal → Twin value value' →
      Twin (.returnStatement token value) (.returnStatement token' value')
  | expressionStatement {token token' : Token} {value value' : Node} :
      Twin value value' →
      Twin (.expressionStatement token value) (.expressionStatement token' value')
  | block {token token' : Token} {statements statements' : List Node} :
      statements.length = statements'.length →
      (∀ pair ∈ statements.zip statements', Twin pair.1 pair.2) →
      Twin (.block token statements) (.block token' statements')
  | identifier {token token' : Token} {name : String} :
      Twin (.identifier token name) (.identifier token' name)
  | integer {token token' : Token} {value : Int} :
      token.literal = token'.literal → Twin (.integer token value) (.integer token' value)
  | string {token token' : Token} {text : String} :
      Twin (.string token text) (.string token' text)
  | boolean {token token' : Token} {value : Bool} :
      token.literal = token'.literal → Twin (.boolean token value) (.boolean token' value)
  | prefixed {token token' : Token} {operator : String} {right right' : Node} :
      Twin right right' → Twin (.prefixed token operator right) (.prefixed token' operator right')
  | binary {token token' : Token} {operator : String} {left left' right right' : Node} :
      Twin left left' → Twin right right' →
      Twin (.binary token operator left right) (.binary token' operator left' right')
  | conditional {token token' : Token}
      {condition condition' consequence consequence' alternative alternative' : Node} :
      Twin condition condition' → Twin consequence consequence' → Twin alternative alternative' →
      Twin (.conditional token condition consequence alternative)
        (.conditional token' condition' consequence' alternative')
  | function {token token' : Token} {parameters parameters' : List Node} {body body' : Node} :
      token.literal = token'.literal → parameters.length = parameters'.length →
      (∀ pair ∈ parameters.zip parameters', Twin pair.1 pair.2) → Twin body body' →
      Twin (.function token parameters body) (.function token' parameters' body')
  | call {token token' : Token} {callee callee' : Node} {arguments arguments' : List Node} :
      Twin callee callee' → arguments.length = arguments'.length →
      (∀ pair ∈ arguments.zip arguments', Twin pair.1 pair.2) →
      Twin (.call token callee arguments) (.call token' callee' arguments')
  | array {token token' : Token} {elements elements' : List Node} :
      elements.length = elements'.length →
      (∀ pair ∈ elements.zip elements', Twin pair.1 pair.2) →
      Twin (.array token elements) (.array token' elements')
  | hash {token token' : Token} {pairs pairs' : List (Node × Node)} :
      pairs.length = pairs'.length →
      (∀ pair ∈ pairs.zip pairs', Twin pair.1.1 pair.2.1) →
      (∀ pair ∈ pairs.zip pairs', Twin pair.1.2 pair.2.2) →
      Twin (.hash token pairs) (.hash token' pairs')
  | index {token token' : Token} {target target' key key' : Node} :
      Twin target target' → Twin key key' →
      Twin (.index token target key) (.index token' target' key')
  | missing : Twin .missing .missing
  | foreign : Twin .foreign .foreign

/-! ## Twins are printed alike -/

theorem renderAll_eq_of_forall₂ {nodes nodes' : List Node}
    (h : List.Forall₂ (fun node node' => node.render = node'.render) nodes nodes') :
    renderAll nodes = renderAll nodes' := by
  induction h with
  | nil => rfl
  | cons hnode _ ih => rw [renderAll, renderAll, hnode, ih]

theorem renderPairs_eq_of_forall₂ {pairs pairs' : List (Node × Node)}
    (h : List.Forall₂ (fun pair pair' => pair.1.render = pair'.1.render ∧
      pair.2.render = pair'.2.render) pairs pairs') :
    renderPairs pairs = renderPairs pairs' := by
  induction h with
  | nil => rfl
  | cons hpair _ ih => rw [renderPairs, renderPairs, hpair.1, hpair.2, ih]

theorem renderStatements_eq_of_forall₂ {statements statements' : List Node}
    (h : List.Forall₂ (fun node node' => node.isExpressionStatement = node'.isExpressionStatement ∧
      node.render = node'.render) statements statements') :
    renderStatements statements = renderStatements statements' := by
  induction h with
  | nil => rfl
  | @cons node node' rest rest' hnode hrest ih =>
      have hempty : rest.isEmpty = rest'.isEmpty := by cases hrest <;> rfl
      rw [renderStatements, renderStatements, hnode.1, hnode.2, hempty, ih]

theorem forall₂_twin {nodes nodes' : List Node} (hlength : nodes.length = nodes'.length)
    (hzip : ∀ pair ∈ nodes.zip nodes', pair.1.Twin pair.2) : List.Forall₂ Twin nodes nodes' :=
  List.forall₂_iff_zip.2 ⟨hlength, fun hpair => hzip _ hpair⟩

namespace Twin

variable {node node' : Node}

theorem isExpressionStatement_eq (h : node.Twin node') :
    node.isExpressionStatement = node'.isExpressionStatement := by
  cases h <;> rfl

theorem orNothing_eq (h : node.Twin node') {text text' : String} (htext : text = text') :
    node.orNothing text = node'.orNothing text' := by
  cases h <;> first | exact htext | rfl

/-- Twins have the same canonical text. -/
theorem render_eq (h : node.Twin node') : node.render = node'.render := by
  induction h with
  | program hlength hzip ih =>
      have hstatements := List.forall₂_iff_zip.2 ⟨hlength, fun hpair =>
        And.intro (hzip _ hpair).isExpressionStatement_eq (ih _ hpair)⟩
      rw [render, render, renderStatements_eq_of_forall₂ hstatements]
  | letStatement hliteral _ hvalue ihName ihValue =>
      rw [render, render, hliteral, ihName, hvalue.orNothing_eq ihValue]
  | returnStatement hliteral hvalue ih =>
      rw [render, render, hliteral, hvalue.orNothing_eq ih]
  | expressionStatement hvalue ih => rw [render, render, hvalue.orNothing_eq ih]
  | @block _ _ statements statements' hlength hzip ih =>
      have hstatements := List.forall₂_iff_zip.2 ⟨hlength, fun hpair =>
        And.intro (hzip _ hpair).isExpressionStatement_eq (ih _ hpair)⟩
      have htexts := renderStatements_eq_of_forall₂ hstatements
      cases hstatements with
      | nil => rfl
      | cons => rw [render, render, htexts]
  | integer hliteral => exact hliteral
  | boolean hliteral => exact hliteral
  | prefixed hright ih => rw [render, render, hright.orNothing_eq ih]
  | binary _ hright ihLeft ihRight => rw [render, render, ihLeft, hright.orNothing_eq ihRight]
  | conditional _ _ halternative ihCondition ihConsequence ihAlternative =>
      have htext := congrArg (" else " ++ ·) ihAlternative
      rw [render, render, ihCondition, ihConsequence, halternative.orNothing_eq htext]
  | function hliteral hlength _ _ ihParameters ihBody =>
      have hparameters := List.forall₂_iff_zip.2 ⟨hlength, fun hpair => ihParameters _ hpair⟩
      rw [render, render, hliteral, renderAll_eq_of_forall₂ hparameters, ihBody]
  | call _ hlength _ ihCallee ihArguments =>
      have harguments := List.forall₂_iff_zip.2 ⟨hlength, fun hpair => ihArguments _ hpair⟩
      rw [render, render, ihCallee, renderAll_eq_of_forall₂ harguments]
  | array hlength _ ih =>
      have helements := List.forall₂_iff_zip.2 ⟨hlength, fun hpair => ih _ hpair⟩
      rw [render, render, renderAll_eq_of_forall₂ helements]
  | hash hlength _ _ ihKeys ihValues =>
      have hpairs := List.forall₂_iff_zip.2 ⟨hlength, fun hpair =>
        And.intro (ihKeys _ hpair) (ihValues _ hpair)⟩
      rw [render, render, renderPairs_eq_of_forall₂ hpairs]
  | index _ _ ihTarget ihKey => rw [render, render, ihTarget, ihKey]
  | _ => rfl

/-- Twins match, and their children are twins. -/
theorem toMatch (h : node.Twin node') : node.Match Twin (fun _ => true) node' := by
  cases h with
  | program hlength hzip => exact .program (forall₂_twin hlength hzip)
  | letStatement _ hname hvalue => exact .letStatement hname hvalue
  | returnStatement _ hvalue => exact .returnStatement hvalue
  | expressionStatement hvalue => exact .expressionStatement hvalue
  | block hlength hzip => exact .block (forall₂_twin hlength hzip)
  | prefixed hright => exact .prefixed hright
  | binary hleft hright => exact .binary hleft hright
  | conditional hcondition hconsequence halternative =>
      exact .conditional hcondition hconsequence halternative
  | function _ hlength hzip hbody => exact .function (forall₂_twin hlength hzip) hbody
  | call hcallee hlength hzip => exact .call hcallee (forall₂_twin hlength hzip)
  | array hlength hzip => exact .array (forall₂_twin hlength hzip)
  | hash hlength hkeys hvalues =>
      exact .hash (List.forall₂_iff_zip.2 ⟨hlength, fun h => ⟨hkeys _ h, hvalues _ h⟩⟩)
  | index htarget hkey => exact .index htarget hkey
  | identifier => exact .identifier rfl
  | _ => constructor

end Twin

end Node

/-! ## Well-formed trees -/

/-- Well-formed trees that are the same as those of the phrase without tokens are their twins. -/
def Phrase.Twins (limit : Numeral.DigitLimit) : Phrase → Prop
  | .expression node => ∀ other, WellFormed limit (.expression other) →
      node.erase = other.erase → node.Twin other
  | .parameter node => ∀ other, WellFormed limit (.parameter other) →
      node.erase = other.erase → node.Twin other
  | .pair key value => ∀ key' value', WellFormed limit (.pair key' value') →
      key.erase = key'.erase → value.erase = value'.erase → key.Twin key' ∧ value.Twin value'
  | .statement node => ∀ other, WellFormed limit (.statement other) →
      node.erase = other.erase → node.Twin other
  | .block node => ∀ other, WellFormed limit (.block other) →
      node.erase = other.erase → node.Twin other
  | _ => True

/-- Lists with the same images are related item by item, if items with the same image are related
as soon as the second one is good. -/
theorem zip_related_of_map_eq {α β : Type} {items items' : List α} {f : α → β} {good : α → Prop}
    {related : α → α → Prop} (h : items.map f = items'.map f) (hgood : ∀ item' ∈ items', good item')
    (hrelated : ∀ item ∈ items, ∀ item', good item' → f item = f item' → related item item') :
    items.length = items'.length ∧ ∀ pair ∈ items.zip items', related pair.1 pair.2 := by
  rw [← List.forall₂_eq_eq_eq, List.forall₂_map_left_iff, List.forall₂_map_right_iff,
    List.forall₂_iff_zip] at h
  refine ⟨h.1, fun pair hpair => ?_⟩
  obtain ⟨hleft, hright⟩ := List.of_mem_zip hpair
  exact hrelated pair.1 hleft pair.2 (hgood pair.2 hright) (h.2 hpair)

section

variable {limit : Numeral.DigitLimit}

/-- Well-formed trees are twins if they are the same without their tokens. -/
theorem WellFormed.twins {phrase : Phrase} (h : WellFormed limit phrase) :
    phrase.Twins limit := by
  -- A tree of another kind stays of another kind without its tokens. Of one kind there is one rule,
  -- except that a conditional may be with or without a block at its end.
  induction h with
  | identifier hname =>
      intro other hother herase
      cases hother with
      | identifier =>
          cases herase
          exact .identifier
      | _ => cases herase
  | @integer token value hwritten =>
      intro other hother herase
      cases hother with
      | integer =>
          simp only [Node.erase, Node.integer.injEq, Token.mk.injEq, true_and, and_true] at herase
          obtain ⟨hliteral, rfl⟩ := herase
          exact .integer hliteral
      | _ => cases herase
  | string htext =>
      intro other hother herase
      cases hother with
      | string =>
          cases herase
          exact .string
      | _ => cases herase
  | boolean hliteral =>
      intro other hother herase
      cases hother with
      | boolean hliteral' =>
          cases herase
          exact .boolean (hliteral.trans hliteral'.symm)
      | _ => cases herase
  | prefixed _ _ ih =>
      intro other hother herase
      cases hother with
      | prefixed _ hright =>
          obtain ⟨-, rfl, heq⟩ := Node.prefixed.inj herase
          exact .prefixed (ih _ hright heq)
      | _ => cases herase
  | binary _ _ _ ihLeft ihRight =>
      intro other hother herase
      cases hother with
      | binary _ hleft hright =>
          obtain ⟨-, rfl, heqLeft, heqRight⟩ := Node.binary.inj herase
          exact .binary (ihLeft _ hleft heqLeft) (ihRight _ hright heqRight)
      | _ => cases herase
  | conditional _ _ ihCondition ihConsequence =>
      intro other hother herase
      cases hother with
      | conditional hcondition hconsequence =>
          obtain ⟨-, heqCondition, heqConsequence, -⟩ := Node.conditional.inj herase
          exact .conditional (ihCondition _ hcondition heqCondition)
            (ihConsequence _ hconsequence heqConsequence) .missing
      | choice _ _ halternative =>
          obtain ⟨-, -, -, heq⟩ := Node.conditional.inj herase
          cases halternative
          cases heq
      | _ => cases herase
  | choice _ _ halternative ihCondition ihConsequence ihAlternative =>
      intro other hother herase
      cases hother with
      | conditional =>
          obtain ⟨-, -, -, heq⟩ := Node.conditional.inj herase
          cases halternative
          cases heq
      | choice hcondition hconsequence halternative' =>
          obtain ⟨-, heqCondition, heqConsequence, heqAlternative⟩ := Node.conditional.inj herase
          exact .conditional (ihCondition _ hcondition heqCondition)
            (ihConsequence _ hconsequence heqConsequence)
            (ihAlternative _ halternative' heqAlternative)
      | _ => cases herase
  | function hliteral _ _ ihParameters ihBody =>
      intro other hother herase
      cases hother with
      | function hliteral' hparameters hbody =>
          obtain ⟨-, heqParameters, heqBody⟩ := Node.function.inj herase
          rw [Node.eraseAll_eq_map, Node.eraseAll_eq_map] at heqParameters
          obtain ⟨hlength, hzip⟩ := zip_related_of_map_eq heqParameters hparameters ihParameters
          exact .function (hliteral.trans hliteral'.symm) hlength hzip (ihBody _ hbody heqBody)
      | _ => cases herase
  | call _ _ ihCallee ihArguments =>
      intro other hother herase
      cases hother with
      | call hcallee harguments =>
          obtain ⟨-, heqCallee, heqArguments⟩ := Node.call.inj herase
          rw [Node.eraseAll_eq_map, Node.eraseAll_eq_map] at heqArguments
          obtain ⟨hlength, hzip⟩ := zip_related_of_map_eq heqArguments harguments ihArguments
          exact .call (ihCallee _ hcallee heqCallee) hlength hzip
      | _ => cases herase
  | array _ ih =>
      intro other hother herase
      cases hother with
      | array helements =>
          obtain ⟨-, heq⟩ := Node.array.inj herase
          rw [Node.eraseAll_eq_map, Node.eraseAll_eq_map] at heq
          obtain ⟨hlength, hzip⟩ := zip_related_of_map_eq heq helements ih
          exact .array hlength hzip
      | _ => cases herase
  | @hash token pairs _ ih =>
      intro other hother herase
      cases hother with
      | hash hpairs =>
          obtain ⟨-, heq⟩ := Node.hash.inj herase
          rw [Node.erasePairs_eq_map, Node.erasePairs_eq_map] at heq
          have hrelated : ∀ pair ∈ pairs, ∀ pair' : Node × Node,
              WellFormed limit (.pair pair'.1 pair'.2) →
              (pair.1.erase, pair.2.erase) = (pair'.1.erase, pair'.2.erase) →
              pair.1.Twin pair'.1 ∧ pair.2.Twin pair'.2 := by
            intro pair hpair pair' hpair' hsame
            obtain ⟨hkey, hvalue⟩ := Prod.mk.inj hsame
            exact ih pair hpair _ _ hpair' hkey hvalue
          obtain ⟨hlength, hzip⟩ := zip_related_of_map_eq heq hpairs hrelated
          exact .hash hlength (fun places hplaces => (hzip places hplaces).1)
            fun places hplaces => (hzip places hplaces).2
      | _ => cases herase
  | index _ _ ihTarget ihKey =>
      intro other hother herase
      cases hother with
      | index htarget hkey =>
          obtain ⟨-, heqTarget, heqKey⟩ := Node.index.inj herase
          exact .index (ihTarget _ htarget heqTarget) (ihKey _ hkey heqKey)
      | _ => cases herase
  | parameter hname =>
      intro other hother herase
      cases hother with
      | parameter =>
          cases herase
          exact .identifier
  | pair _ _ ihKey ihValue =>
      intro key' value' hother hkey hvalue
      cases hother with
      | pair hkey' hvalue' => exact ⟨ihKey _ hkey' hkey, ihValue _ hvalue' hvalue⟩
  | letStatement hliteral hname _ ih =>
      intro other hother herase
      cases hother with
      | letStatement hliteral' _ hvalue =>
          obtain ⟨-, heqName, heqValue⟩ := Node.letStatement.inj herase
          obtain ⟨-, rfl⟩ := Node.identifier.inj heqName
          exact .letStatement (hliteral.trans hliteral'.symm) .identifier (ih _ hvalue heqValue)
      | _ => cases herase
  | returnStatement hliteral _ ih =>
      intro other hother herase
      cases hother with
      | returnStatement hliteral' hvalue =>
          obtain ⟨-, heq⟩ := Node.returnStatement.inj herase
          exact .returnStatement (hliteral.trans hliteral'.symm) (ih _ hvalue heq)
      | _ => cases herase
  | expressionStatement _ ih =>
      intro other hother herase
      cases hother with
      | expressionStatement hvalue =>
          obtain ⟨-, heq⟩ := Node.expressionStatement.inj herase
          exact .expressionStatement (ih _ hvalue heq)
      | _ => cases herase
  | block _ ih =>
      intro other hother herase
      cases hother with
      | block hstatements =>
          obtain ⟨-, heq⟩ := Node.block.inj herase
          rw [Node.eraseAll_eq_map, Node.eraseAll_eq_map] at heq
          obtain ⟨hlength, hzip⟩ := zip_related_of_map_eq heq hstatements ih
          exact .block hlength hzip

/-- Well-formed programs are twins if they are the same without their tokens. -/
theorem WellFormedProgram.twin {program program' : Node} (h : WellFormedProgram limit program)
    (h' : WellFormedProgram limit program') (herase : program.erase = program'.erase) :
    program.Twin program' := by
  cases program with
  | program token statements =>
      cases program' with
      | program token' statements' =>
          obtain ⟨-, heq⟩ := Node.program.inj herase
          rw [Node.eraseAll_eq_map, Node.eraseAll_eq_map] at heq
          obtain ⟨hlength, hzip⟩ := zip_related_of_map_eq heq h' fun node hnode =>
            (h node hnode).twins
          exact .program hlength hzip
      | _ => exact h'.elim
  | _ => exact h.elim

end

end MonkeyLanguage
