-- SUMMARY: The parser does not look at the places of tokens.
import MonkeyLanguage.Parse
import MonkeyLanguage.Proofs.Scanning.Shape

/-!
# Places of tokens

The place of a token is for the reader of a diagnostic. The parser copies it into the tree and never
looks at it: to take the places off the tokens first and to take them off the tree afterwards is the
same. So sources whose tokens have the same shapes are read as the same tree, but for places.
-/

namespace MonkeyLanguage

/-! ## Taking places off -/

/-- The same token, from no place. -/
def Token.unplaced (token : Token) : Token := { token with position := .nowhere }

namespace Token

@[simp] theorem kind_unplaced (token : Token) : token.unplaced.kind = token.kind := rfl

@[simp] theorem literal_unplaced (token : Token) : token.unplaced.literal = token.literal := rfl

@[simp] theorem unplaced_endAt (position : Position) :
    (endAt position).unplaced = endAt .nowhere := rfl

/-- A token of a shape, from no place. -/
def ofShape (shape : Shape) : Token := ⟨shape.1, shape.2, .nowhere⟩

end Token

namespace Node

mutual

/-- The same tree, with tokens from no place. -/
def unplaced : Node → Node
  | program token statements => .program token.unplaced (unplacedAll statements)
  | letStatement token name value => .letStatement token.unplaced name.unplaced value.unplaced
  | returnStatement token value => .returnStatement token.unplaced value.unplaced
  | expressionStatement token value => .expressionStatement token.unplaced value.unplaced
  | block token statements => .block token.unplaced (unplacedAll statements)
  | identifier token name => .identifier token.unplaced name
  | integer token value => .integer token.unplaced value
  | string token text => .string token.unplaced text
  | boolean token value => .boolean token.unplaced value
  | prefixed token operator right => .prefixed token.unplaced operator right.unplaced
  | binary token operator left right =>
    .binary token.unplaced operator left.unplaced right.unplaced
  | conditional token condition consequence alternative =>
    .conditional token.unplaced condition.unplaced consequence.unplaced alternative.unplaced
  | function token parameters body =>
    .function token.unplaced (unplacedAll parameters) body.unplaced
  | call token callee arguments => .call token.unplaced callee.unplaced (unplacedAll arguments)
  | array token elements => .array token.unplaced (unplacedAll elements)
  | hash token pairs => .hash token.unplaced (unplacedPairs pairs)
  | index token target key => .index token.unplaced target.unplaced key.unplaced
  | missing => .missing
  | foreign => .foreign

/-- The same trees, with tokens from no place. -/
def unplacedAll : List Node → List Node
  | [] => []
  | node :: rest => node.unplaced :: unplacedAll rest

/-- The same pairs of trees, with tokens from no place. -/
def unplacedPairs : List (Node × Node) → List (Node × Node)
  | [] => []
  | (key, value) :: rest => (key.unplaced, value.unplaced) :: unplacedPairs rest

end

@[simp] theorem unplacedAll_eq_map (nodes : List Node) :
    unplacedAll nodes = nodes.map unplaced := by
  induction nodes with
  | nil => rfl
  | cons node nodes ih => rw [unplacedAll, ih, List.map_cons]

@[simp] theorem unplacedPairs_eq_map (pairs : List (Node × Node)) :
    unplacedPairs pairs = pairs.map (Prod.map unplaced unplaced) := by
  induction pairs with
  | nil => rfl
  | cons pair pairs ih => rw [unplacedPairs, ih, List.map_cons, Prod.map]

end Node

namespace Feed

/-- The same feed, with tokens from no place. -/
def unplaced (feed : Feed) : Feed := ⟨feed.ahead.map Token.unplaced, .nowhere⟩

@[simp] theorem ahead_unplaced (feed : Feed) :
    feed.unplaced.ahead = feed.ahead.map Token.unplaced := rfl

@[simp] theorem current_unplaced (feed : Feed) :
    feed.unplaced.current = feed.current.unplaced := by
  obtain ⟨ahead, finish⟩ := feed
  cases ahead <;> rfl

@[simp] theorem peek_unplaced (feed : Feed) : feed.unplaced.peek = feed.peek.unplaced := by
  obtain ⟨ahead, finish⟩ := feed
  rcases ahead with _ | ⟨first, _ | ⟨next, rest⟩⟩ <;> rfl

@[simp] theorem advance_unplaced (feed : Feed) :
    feed.unplaced.advance = feed.advance.unplaced := by
  obtain ⟨ahead, finish⟩ := feed
  cases ahead <;> rfl

theorem skipTo_unplaced (stops : List Kind) (feed : Feed) :
    feed.unplaced.skipTo stops = (feed.skipTo stops).unplaced := by
  simp only [skipTo, unplaced, List.dropWhile_map, Function.comp_def, Token.kind_unplaced]

theorem dropSemicolons_map (tokens : List Token) :
    dropSemicolons (tokens.map Token.unplaced) = (dropSemicolons tokens).map Token.unplaced := by
  induction tokens with
  | nil => rfl
  | cons front tokens ih =>
      cases tokens with
      | nil => rfl
      | cons next rest =>
          by_cases hkind : next.kind = .semicolon
          · simpa [dropSemicolons, hkind] using ih
          · simp [dropSemicolons, hkind]

theorem skipSemicolons_unplaced (feed : Feed) :
    feed.unplaced.skipSemicolons = feed.skipSemicolons.unplaced := by
  simp only [skipSemicolons, unplaced, dropSemicolons_map]

end Feed

/-! ## Parsers without places -/

/-- The same reply, without places. -/
def Reply.unplaced {α β : Type} (strip : α → β) (reply : Reply α) : Reply β :=
  ⟨reply.value?.map strip, reply.errors, reply.rest.unplaced⟩

namespace Parser

variable {α β γ δ : Type} {strip : α → β} {stripNext : γ → δ}

/-- Without places, the second parser does what the first one does with them. -/
def Blind (strip : α → β) (parser : Parser α) (parser' : Parser β) : Prop :=
  ∀ feed, parser' feed.unplaced = (parser feed).map (Reply.unplaced strip)

theorem blind_pure (a : α) : Blind strip (pure a) (pure (strip a)) := fun _ => rfl

theorem blind_result {a : α} {b : β} (h : strip a = b) : Blind strip (pure a) (pure b) :=
  h ▸ blind_pure a

theorem blind_exhausted : Blind strip exhausted exhausted := fun _ => rfl

theorem blind_fail (error : ParseError) : Blind strip (fail error) (fail error) := fun _ => rfl

theorem blind_report (error : ParseError) : Blind id (report error) (report error) := fun _ => rfl

theorem blind_current : Blind Token.unplaced current current := by
  intro feed
  simp [current, Reply.unplaced]

theorem blind_peek : Blind Token.unplaced peek peek := by
  intro feed
  simp [peek, Reply.unplaced]

theorem blind_move {step : Feed → Feed} (h : ∀ feed, step feed.unplaced = (step feed).unplaced) :
    Blind id (move step) (move step) := by
  intro feed
  simp [move, Reply.unplaced, h]

theorem blind_advance : Blind id advance advance := blind_move Feed.advance_unplaced

theorem Blind.bind {parser : Parser α} {parser' : Parser β} {next : α → Parser γ}
    {next' : β → Parser δ} (h : Blind strip parser parser')
    (hnext : ∀ a, Blind stripNext (next a) (next' (strip a))) :
    Blind stripNext (parser >>= next) (parser' >>= next') := by
  intro feed
  show andThen parser' next' feed.unplaced = (andThen parser next feed).map _
  rw [andThen, andThen, h feed]
  match parser feed with
  | none => rfl
  | some ⟨none, errors, rest⟩ => rfl
  | some ⟨some a, errors, rest⟩ =>
      simp only [Option.map_some, Reply.unplaced, hnext a rest, Option.map_map]
      rfl

theorem Blind.attempt {parser : Parser α} {parser' : Parser β} (h : Blind strip parser parser') :
    Blind (Option.map strip) (attempt parser) (Parser.attempt parser') := by
  intro feed
  simp only [Parser.attempt, h feed, Option.map_map]
  rfl

theorem blind_expect (wanted : Kind) : Blind id (expect wanted) (expect wanted) := by
  refine blind_peek.bind fun next => ?_
  rw [Token.kind_unplaced]
  split
  · exact blind_advance
  · exact blind_fail _

theorem Blind.gatherUpTo {step : Parser (Option (List α))} {step' : Parser (Option (List β))}
    (h : Blind (Option.map (List.map strip)) step step') (bound : Nat) :
    Blind (List.map strip) (gatherUpTo step bound) (gatherUpTo step' bound) := by
  induction bound with
  | zero => exact blind_exhausted
  | succ bound ih =>
      refine h.bind fun items? => ?_
      cases items? with
      | none => exact blind_pure []
      | some items =>
          refine ih.bind fun others => ?_
          rw [← List.map_append]
          exact blind_pure _

theorem Blind.gather {step : Parser (Option (List α))} {step' : Parser (Option (List β))}
    (h : Blind (Option.map (List.map strip)) step step') :
    Blind (List.map strip) (gather step) (gather step') := by
  intro feed
  rw [Parser.gather, Feed.ahead_unplaced, List.length_map]
  exact h.gatherUpTo (feed.ahead.length + 1) feed

theorem Blind.listStep {item : Parser α} {item' : Parser β} (h : Blind strip item item')
    (closing : Kind) :
    Blind (Option.map (List.map strip)) (listStep closing item) (listStep closing item') := by
  refine blind_peek.bind fun next => ?_
  rw [Token.kind_unplaced]
  split
  · refine blind_advance.bind fun _ => blind_advance.bind fun _ => h.bind fun a => ?_
    exact blind_pure (some [a])
  · exact (blind_expect closing).bind fun _ => blind_pure none

theorem Blind.listUpTo {item : Parser α} {item' : Parser β} (h : Blind strip item item')
    (closing : Kind) :
    Blind (List.map strip) (listUpTo closing item) (listUpTo closing item') := by
  refine blind_peek.bind fun next => ?_
  rw [Token.kind_unplaced]
  split
  · exact blind_advance.bind fun _ => blind_pure []
  · refine blind_advance.bind fun _ => h.bind fun first => ?_
    exact (h.listStep closing).gather.bind fun others => blind_pure (first :: others)

/-! ## Rules -/

section

variable {limit : Numeral.DigitLimit} {expression : ExpressionParser}
  (h : ∀ power, Blind Node.unplaced (expression power) (expression power))

include h

theorem blind_letStatement :
    Blind Node.unplaced (letStatement expression) (letStatement expression) := by
  refine blind_current.bind fun token => (blind_expect _).bind fun _ =>
    blind_current.bind fun name => (blind_expect _).bind fun _ => blind_advance.bind fun _ =>
      (h _).bind fun value => (blind_move Feed.skipSemicolons_unplaced).bind fun _ => ?_
  exact blind_pure (Node.letStatement token (.identifier name name.literal) value)

theorem blind_returnStatement :
    Blind Node.unplaced (returnStatement expression) (returnStatement expression) := by
  refine blind_current.bind fun token => blind_advance.bind fun _ => (h _).bind fun value =>
    (blind_move Feed.skipSemicolons_unplaced).bind fun _ => ?_
  exact blind_pure (Node.returnStatement token value)

theorem blind_expressionStatement :
    Blind Node.unplaced (expressionStatement expression) (expressionStatement expression) := by
  refine blind_current.bind fun token => (h _).bind fun value =>
    (blind_move Feed.skipSemicolons_unplaced).bind fun _ => ?_
  exact blind_pure (Node.expressionStatement token value)

theorem blind_statement : Blind Node.unplaced (statement expression) (statement expression) := by
  refine blind_current.bind fun token => ?_
  rw [Token.kind_unplaced]
  split
  · exact blind_letStatement h
  · exact blind_returnStatement h
  · exact blind_expressionStatement h

theorem blind_blockStep :
    Blind (Option.map (List.map Node.unplaced)) (blockStep expression) (blockStep expression) := by
  refine blind_current.bind fun token => ?_
  rw [Token.kind_unplaced]
  split
  · exact blind_pure none
  · exact (blind_report _).bind fun _ => blind_pure none
  · refine (blind_statement h).attempt.bind fun node? => ?_
    cases node? with
    | some node => exact blind_advance.bind fun _ => blind_pure (some [node])
    | none =>
        refine (blind_move (Feed.skipTo_unplaced _)).bind fun _ =>
          blind_current.bind fun token => ?_
        rw [Token.kind_unplaced]
        split
        · exact blind_pure none
        · exact blind_advance.bind fun _ => blind_pure (some [])

theorem blind_block : Blind Node.unplaced (block expression) (block expression) := by
  refine blind_current.bind fun token => blind_advance.bind fun _ =>
    (blind_blockStep h).gather.bind fun statements => ?_
  exact blind_result (by simp [Node.unplaced])

theorem blind_programStep :
    Blind (Option.map (List.map Node.unplaced)) (programStep expression)
      (programStep expression) := by
  refine blind_current.bind fun token => ?_
  rw [Token.kind_unplaced]
  split
  · exact blind_pure none
  · refine (blind_statement h).attempt.bind fun node? => ?_
    cases node? with
    | some node => exact blind_advance.bind fun _ => blind_pure (some [node])
    | none =>
        exact (blind_move (Feed.skipTo_unplaced _)).bind fun _ =>
          blind_advance.bind fun _ => blind_pure (some [])

theorem blind_programStatements :
    Blind (List.map Node.unplaced) (programStatements expression) (programStatements expression) :=
  (blind_programStep h).gather

omit h in
theorem blind_integer : Blind Node.unplaced (integer limit) (integer limit) := by
  refine blind_current.bind fun token => ?_
  rw [Token.literal_unplaced]
  split
  case h_1 value _ =>
    split
    · exact blind_pure (Node.integer token value)
    · exact blind_fail _
  case h_2 => exact blind_fail _

theorem blind_prefixed : Blind Node.unplaced (prefixed expression) (prefixed expression) := by
  refine blind_current.bind fun token => blind_advance.bind fun _ => (h _).bind fun right => ?_
  exact blind_pure (Node.prefixed token token.literal right)

theorem blind_grouped : Blind Node.unplaced (grouped expression) (grouped expression) :=
  blind_advance.bind fun _ => (h _).bind fun inner => (blind_expect _).bind fun _ =>
    blind_pure inner

theorem blind_alternative :
    Blind Node.unplaced (alternative expression) (alternative expression) := by
  refine blind_peek.bind fun next => ?_
  rw [Token.kind_unplaced]
  split
  · exact blind_advance.bind fun _ => (blind_expect _).bind fun _ => blind_block h
  · exact blind_pure Node.missing

theorem blind_conditional :
    Blind Node.unplaced (conditional expression) (conditional expression) := by
  refine blind_current.bind fun token => (blind_expect _).bind fun _ => blind_advance.bind fun _ =>
    (h _).bind fun condition => (blind_expect _).bind fun _ => (blind_expect _).bind fun _ =>
      (blind_block h).bind fun consequence => (blind_alternative h).bind fun otherwise => ?_
  exact blind_pure (Node.conditional token condition consequence otherwise)

omit h in
theorem blind_parameter : Blind Node.unplaced parameter parameter := by
  refine blind_current.bind fun token => ?_
  rw [Token.kind_unplaced]
  split
  · exact blind_pure (Node.identifier token token.literal)
  · exact blind_fail _

theorem blind_function : Blind Node.unplaced (function expression) (function expression) := by
  refine blind_current.bind fun token => (blind_expect _).bind fun _ =>
    (blind_parameter.listUpTo _).bind fun parameters => (blind_expect _).bind fun _ =>
      (blind_block h).bind fun body => ?_
  exact blind_result (by simp [Node.unplaced])

theorem blind_array : Blind Node.unplaced (array expression) (array expression) := by
  refine blind_current.bind fun token => ((h _).listUpTo _).bind fun elements => ?_
  exact blind_result (by simp [Node.unplaced])

theorem blind_pair :
    Blind (Prod.map Node.unplaced Node.unplaced) (pair expression) (pair expression) := by
  refine (h _).bind fun key => (blind_expect _).bind fun _ => blind_advance.bind fun _ =>
    (h _).bind fun value => ?_
  exact blind_pure (key, value)

theorem blind_hash : Blind Node.unplaced (hash expression) (hash expression) := by
  refine blind_current.bind fun token => ((blind_pair h).listUpTo _).bind fun pairs => ?_
  exact blind_result (by simp [Node.unplaced])

theorem blind_operand :
    Blind Node.unplaced (operand limit expression) (operand limit expression) := by
  refine blind_current.bind fun token => ?_
  rw [Token.kind_unplaced]
  split
  · exact blind_pure (Node.identifier token token.literal)
  · exact blind_integer
  · exact blind_pure (Node.string token token.literal)
  · exact blind_pure (Node.boolean token true)
  · exact blind_pure (Node.boolean token false)
  · exact blind_prefixed h
  · exact blind_prefixed h
  · exact blind_grouped h
  · exact blind_conditional h
  · exact blind_function h
  · exact blind_array h
  · exact blind_hash h
  · exact blind_fail _

theorem blind_call (callee : Node) :
    Blind Node.unplaced (call expression callee) (call expression callee.unplaced) := by
  refine blind_current.bind fun token => ((h _).listUpTo _).bind fun arguments => ?_
  exact blind_result (by simp [Node.unplaced])

theorem blind_index (target : Node) :
    Blind Node.unplaced (index expression target) (index expression target.unplaced) := by
  refine blind_current.bind fun token => blind_advance.bind fun _ => (h _).bind fun key =>
    (blind_expect _).bind fun _ => ?_
  exact blind_pure (Node.index token target key)

omit h in
theorem blind_property (target : Node) :
    Blind Node.unplaced (property target) (property target.unplaced) := by
  refine blind_current.bind fun token => (blind_expect _).bind fun _ =>
    blind_current.bind fun name => ?_
  exact blind_pure (Node.index token target (.string name name.literal))

theorem blind_binary (left : Node) :
    Blind Node.unplaced (binary expression left) (binary expression left.unplaced) := by
  refine blind_current.bind fun token => blind_advance.bind fun _ => (h _).bind fun right => ?_
  exact blind_pure (Node.binary token token.literal left right)

theorem blind_extension (left : Node) :
    Blind Node.unplaced (extension expression left) (extension expression left.unplaced) := by
  refine blind_current.bind fun token => ?_
  rw [Token.kind_unplaced]
  split
  · exact blind_call h left
  · exact blind_index h left
  · exact blind_property left
  · exact blind_binary h left

theorem blind_extendUpTo (power bound : Nat) (left : Node) :
    Blind Node.unplaced (extendUpTo expression power bound left)
      (extendUpTo expression power bound left.unplaced) := by
  induction bound generalizing left with
  | zero => exact blind_exhausted
  | succ bound ih =>
      refine blind_peek.bind fun next => ?_
      rw [Token.kind_unplaced]
      split
      · exact blind_advance.bind fun _ => (blind_extension h left).bind ih
      · exact blind_pure left

theorem blind_extend (power : Nat) (left : Node) :
    Blind Node.unplaced (extend expression power left) (extend expression power left.unplaced) := by
  intro feed
  rw [extend, extend, Feed.ahead_unplaced, List.length_map]
  exact blind_extendUpTo h power _ left feed

end

/-- The parser of expressions does not look at places. -/
theorem blind_expression (limit : Numeral.DigitLimit) (depth power : Nat) :
    Blind Node.unplaced (expression limit depth power) (expression limit depth power) := by
  induction depth generalizing power with
  | zero => exact blind_exhausted
  | succ depth ih => exact (blind_operand ih).bind fun left => blind_extend ih power left

end Parser

/-! ## Sources -/

namespace Parse

variable (limit : Numeral.DigitLimit)

/-- To read without places is to read and then take the places off the tree. -/
theorem ofFeed_unplaced (feed : Feed) :
    (ofFeed feed.unplaced limit).errors = (ofFeed feed limit).errors ∧
      (ofFeed feed.unplaced limit).program = (ofFeed feed limit).program.unplaced := by
  have hblind := Parser.blind_programStatements
    (Parser.blind_expression limit (feed.ahead.length + 1)) feed
  rw [ofFeed, ofFeed, Feed.ahead_unplaced, List.length_map, hblind, Feed.current_unplaced]
  match Parser.programStatements (Parser.expression limit (feed.ahead.length + 1)) feed with
  | none => exact ⟨rfl, rfl⟩
  | some ⟨none, errors, rest⟩ => exact ⟨rfl, rfl⟩
  | some ⟨some nodes, errors, rest⟩ => exact ⟨rfl, by simp [Reply.unplaced, Node.unplaced]⟩

end Parse

/-- The feed of tokens of some shapes, from no place. -/
def Feed.ofShapes (shapes : List Shape) : Feed :=
  ⟨shapes.map Token.ofShape ++ [Token.endAt .nowhere], .nowhere⟩

theorem Feed.unplaced_ofSource (source : String) :
    (Feed.ofSource source).unplaced = Feed.ofShapes (shapes source.toList) := by
  obtain ⟨ts, last, hscan, hshapes, -⟩ := Token.scan_eq source
  have hofShape : Token.ofShape ∘ Token.shape = Token.unplaced := rfl
  simp [Feed.ofSource, Feed.unplaced, Feed.ofShapes, hscan, ← hshapes, hofShape]

/-- What is read from a source depends on the shapes of its tokens only, but for places. -/
theorem Parse.unplaced_ofSource (source : String) (limit : Numeral.DigitLimit) :
    (Parse.ofSource source limit).errors =
        (Parse.ofFeed (Feed.ofShapes (shapes source.toList)) limit).errors ∧
      (Parse.ofSource source limit).program.unplaced =
        (Parse.ofFeed (Feed.ofShapes (shapes source.toList)) limit).program := by
  obtain ⟨herrors, hprogram⟩ := Parse.ofFeed_unplaced limit (Feed.ofSource source)
  rw [← Feed.unplaced_ofSource]
  exact ⟨herrors.symm, hprogram.symm⟩

theorem Parse.unplaced_congr {source source' : String} (limit : Numeral.DigitLimit)
    (h : shapes source.toList = shapes source'.toList) :
    (Parse.ofSource source limit).errors = (Parse.ofSource source' limit).errors ∧
      (Parse.ofSource source limit).program.unplaced =
        (Parse.ofSource source' limit).program.unplaced := by
  obtain ⟨herrors, hprogram⟩ := Parse.unplaced_ofSource source limit
  obtain ⟨herrors', hprogram'⟩ := Parse.unplaced_ofSource source' limit
  rw [herrors, hprogram, h, herrors', hprogram']
  exact ⟨rfl, rfl⟩

end MonkeyLanguage
