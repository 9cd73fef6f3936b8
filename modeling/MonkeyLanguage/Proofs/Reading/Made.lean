-- SUMMARY: The trees that the parser makes, with or without errors.
import MonkeyLanguage.Proofs.Grammar
import MonkeyLanguage.Proofs.Reading.Delivery

/-!
# Trees that the parser makes

Whatever the tokens are, each tree that the parser makes is complete: every child is there
and is of the right sort. `Made` says so, together with what each node has from its tokens.
Unlike a derivation it does not say which tokens were read, so it also covers the statements
that are kept when others are broken.

The rules deliver such trees, and so the parser always replies: expressions nest no deeper
than there are tokens, and each repetition takes tokens off the feed.
-/

namespace MonkeyLanguage

/-- The numbers that the parser reads from the texts of integer tokens. -/
def Parser.reads (limit : Numeral.DigitLimit) (text : String) (value : Int) : Prop :=
  Numeral.read? text limit = some value ∧ value ≤ largestInteger

/-- The phrase is one that the parser makes from tokens with the property `T`. -/
inductive Made (limit : Numeral.DigitLimit) (T : Token → Prop) : Phrase → Prop where
  | identifier {token : Token} :
      T token → token.kind = .identifier →
      Made limit T (.expression (.identifier token token.literal))
  | integer {token : Token} {value : Int} :
      T token → token.kind = .integer → Parser.reads limit token.literal value →
      Made limit T (.expression (.integer token value))
  | string {token : Token} :
      T token → token.kind = .string → Made limit T (.expression (.string token token.literal))
  | trueWord {token : Token} :
      T token → token.kind = .trueWord → Made limit T (.expression (.boolean token true))
  | falseWord {token : Token} :
      T token → token.kind = .falseWord → Made limit T (.expression (.boolean token false))
  | prefixed {operator : Token} {right : Node} :
      T operator → operator.kind ∈ Kind.prefixOperators → Made limit T (.expression right) →
      Made limit T (.expression (.prefixed operator operator.literal right))
  | conditional {word : Token} {condition block : Node} :
      T word → Made limit T (.expression condition) → Made limit T (.block block) →
      Made limit T (.expression (.conditional word condition block .missing))
  | choice {word : Token} {condition block alternative : Node} :
      T word → Made limit T (.expression condition) → Made limit T (.block block) →
      Made limit T (.block alternative) →
      Made limit T (.expression (.conditional word condition block alternative))
  | function {word : Token} {parameters : List Node} {body : Node} :
      T word → word.kind = .functionWord →
      (∀ parameter ∈ parameters, Made limit T (.parameter parameter)) →
      Made limit T (.block body) → Made limit T (.expression (.function word parameters body))
  | array {opening : Token} {elements : List Node} :
      T opening → (∀ element ∈ elements, Made limit T (.expression element)) →
      Made limit T (.expression (.array opening elements))
  | hash {opening : Token} {pairs : List (Node × Node)} :
      T opening → (∀ pair ∈ pairs, Made limit T (.pair pair.1 pair.2)) →
      Made limit T (.expression (.hash opening pairs))
  | binary {operator : Token} {left right : Node} :
      Made limit T (.expression left) → T operator → operator.kind ∈ Kind.infixOperators →
      Made limit T (.expression right) →
      Made limit T (.expression (.binary operator operator.literal left right))
  | call {opening : Token} {callee : Node} {arguments : List Node} :
      Made limit T (.expression callee) → T opening →
      (∀ argument ∈ arguments, Made limit T (.expression argument)) →
      Made limit T (.expression (.call opening callee arguments))
  | index {opening : Token} {target key : Node} :
      Made limit T (.expression target) → T opening → Made limit T (.expression key) →
      Made limit T (.expression (.index opening target key))
  | property {period name : Token} {target : Node} :
      Made limit T (.expression target) → T period → T name → name.kind = .identifier →
      Made limit T (.expression (.index period target (.string name name.literal)))
  | parameter {token : Token} :
      T token → token.kind = .identifier →
      Made limit T (.parameter (.identifier token token.literal))
  | pair {key value : Node} :
      Made limit T (.expression key) → Made limit T (.expression value) →
      Made limit T (.pair key value)
  | letStatement {word name : Token} {value : Node} :
      T word → word.kind = .letWord → T name → name.kind = .identifier →
      Made limit T (.expression value) →
      Made limit T (.statement (.letStatement word (.identifier name name.literal) value))
  | returnStatement {word : Token} {value : Node} :
      T word → word.kind = .returnWord → Made limit T (.expression value) →
      Made limit T (.statement (.returnStatement word value))
  | expressionStatement {first : Token} {value : Node} :
      T first → Made limit T (.expression value) →
      Made limit T (.statement (.expressionStatement first value))
  | block {opening : Token} {nodes : List Node} :
      T opening → (∀ node ∈ nodes, Made limit T (.statement node)) →
      Made limit T (.block (.block opening nodes))

namespace Parser

open Feed

/-- The parser of expressions delivers trees that it makes, on feeds with few enough tokens. -/
def DeliversExpressions (limit : Numeral.DigitLimit) (T : Token → Prop) (bound : Nat)
    (expression : ExpressionParser) : Prop :=
  ∀ power, BindingPower.lowest ≤ power →
    Delivers (Within T bound) (expression power) (fun node _ => Made limit T (.expression node))

variable {limit : Numeral.DigitLimit} {T : Token → Prop} {bound : Nat}
  {expression : ExpressionParser}

/-! ## Single tokens -/

/-- The token at the front of a feed that is not at its end. -/
theorem delivers_front :
    Delivers (fun feed => Within T bound feed ∧ feed.current.kind ≠ .endOfInput) current
      (fun token feed => (Within T bound feed ∧ feed.ahead ≠ []) ∧ T token) :=
  delivers_current.weaken (fun _ h => h) fun _ _ ⟨⟨hwithin, hne⟩, htoken⟩ =>
    ⟨⟨hwithin, ahead_ne_nil hne⟩, htoken ▸ hwithin.current hne⟩

/-- The token at the front of a feed that starts with a token of a known kind. -/
theorem delivers_current_of_kind (kind : Kind) (hkind : kind ≠ .endOfInput) :
    Delivers (fun feed => Within T bound feed ∧ feed.current.kind = kind) current
      (fun token feed => (Within T bound feed ∧ feed.ahead ≠ []) ∧ T token ∧ token.kind = kind) :=
  delivers_current.weaken (fun _ h => h) fun token feed ⟨⟨hwithin, hcurrent⟩, htoken⟩ => by
    have hne : feed.current.kind ≠ .endOfInput := by rw [hcurrent]; exact hkind
    subst htoken
    exact ⟨⟨hwithin, ahead_ne_nil hne⟩, hwithin.current hne, hcurrent⟩

theorem delivers_step :
    Delivers (Within T bound) advance (fun _ feed => Within T bound feed) :=
  delivers_advance fun feed h => h.behind feed.behind_advance

theorem delivers_firstStep :
    Delivers (fun feed => Within T (bound + 1) feed ∧ feed.ahead ≠ []) advance
      (fun _ feed => Within T bound feed) :=
  delivers_advance fun _ h => h.1.advance h.2

theorem delivers_next (kind : Kind) :
    Delivers (Within T bound) (expect kind)
      (fun _ feed => Within T bound feed ∧ feed.current.kind = kind) :=
  delivers_expect fun feed h _ => h.behind feed.behind_advance

theorem delivers_firstNext (kind : Kind) :
    Delivers (fun feed => Within T (bound + 1) feed ∧ feed.ahead ≠ []) (expect kind)
      (fun _ feed => Within T bound feed ∧ feed.current.kind = kind) :=
  delivers_expect fun _ h _ => h.1.advance h.2

theorem delivers_skipSemicolons {P : Feed → Prop} :
    Delivers P (move Feed.skipSemicolons) (fun _ _ => True) :=
  delivers_move behind_skipSemicolons fun _ _ => trivial

/-! ## Statements -/

section

variable (he : DeliversExpressions limit T bound expression)
include he

theorem DeliversExpressions.lowest :
    Delivers (Within T bound) (expression BindingPower.lowest)
      (fun node feed => Within T bound feed ∧ Made limit T (.expression node)) :=
  (he _ (Nat.le_refl _)).keep fun _ _ h => h.behind

theorem letStatement_delivers :
    Delivers (fun feed => Within T bound feed ∧ feed.current.kind = .letWord)
      (letStatement expression) (fun node _ => Made limit T (.statement node)) := by
  apply (delivers_current_of_kind .letWord (by decide)).bind_fact
  intro word hword
  apply ((delivers_next .identifier).pre fun _ h => h.1).bind
  intro _
  apply (delivers_current_of_kind .identifier (by decide)).bind_fact
  intro name hname
  apply ((delivers_next .assign).pre fun _ h => h.1).bind
  intro _
  apply (delivers_step.pre fun _ h => h.1).bind
  intro _
  apply he.lowest.bind_fact
  intro value hvalue
  refine delivers_skipSemicolons.bind fun _ => delivers_pure fun _ _ => ?_
  exact .letStatement hword.1 hword.2 hname.1 hname.2 hvalue

theorem returnStatement_delivers :
    Delivers (fun feed => Within T bound feed ∧ feed.current.kind = .returnWord)
      (returnStatement expression) (fun node _ => Made limit T (.statement node)) := by
  apply (delivers_current_of_kind .returnWord (by decide)).bind_fact
  intro word hword
  apply (delivers_step.pre fun _ h => h.1).bind
  intro _
  apply he.lowest.bind_fact
  intro value hvalue
  refine delivers_skipSemicolons.bind fun _ => delivers_pure fun _ _ => ?_
  exact .returnStatement hword.1 hword.2 hvalue

theorem expressionStatement_delivers :
    Delivers (fun feed => Within T bound feed ∧ feed.current.kind ≠ .endOfInput)
      (expressionStatement expression) (fun node _ => Made limit T (.statement node)) := by
  apply delivers_front.bind_fact
  intro first hfirst
  apply (he.lowest.pre fun _ h => h.1).bind_fact
  intro value hvalue
  exact delivers_skipSemicolons.bind fun _ =>
    delivers_pure fun _ _ => .expressionStatement hfirst hvalue

theorem statement_delivers :
    Delivers (fun feed => Within T bound feed ∧ feed.current.kind ≠ .endOfInput)
      (statement expression) (fun node _ => Made limit T (.statement node)) := by
  apply delivers_current.bind
  intro token
  split
  · next hkind => exact (letStatement_delivers he).pre fun _ h => ⟨h.1.1, by rw [← h.2, hkind]⟩
  · next hkind => exact (returnStatement_delivers he).pre fun _ h => ⟨h.1.1, by rw [← h.2, hkind]⟩
  · exact (expressionStatement_delivers he).pre fun _ h => h.1

/-! ## Blocks and programs -/

/-- The state of the feed where a step of a block or program has tried to read a statement. -/
theorem attempt_statement_delivers {room : Nat} (hroom : room < bound) :
    Delivers (fun feed => Within T (room + 1) feed ∧ feed.current.kind ≠ .endOfInput)
      (attempt (statement expression)) (fun node? feed =>
        (Within T (room + 1) feed ∧ 0 < room) ∧
          ∀ node, node? = some node → Made limit T (.statement node)) :=
  ((statement_delivers he).pre fun _ h => ⟨h.1.mono hroom, h.2⟩).attempt fun _ _ h hbehind =>
    ⟨h.1.behind hbehind, h.1.pos (ahead_ne_nil h.2)⟩

omit he in
theorem delivers_skipTo (stops : List Kind) {room : Nat} :
    Delivers (fun feed => Within T (room + 1) feed ∧ 0 < room) (move (skipTo stops))
      (fun _ feed => Within T (room + 1) feed ∧ 0 < room) :=
  delivers_move (behind_skipTo stops) fun feed h => ⟨h.1.behind (behind_skipTo stops feed), h.2⟩

omit he in
/-- The end of a step: a token is dropped, and the statements of the step are handed out. -/
theorem delivers_stepEnd {room : Nat} {nodes : List Node}
    (hnodes : ∀ node ∈ nodes, Made limit T (.statement node)) :
    Delivers (fun feed => Within T (room + 1) feed ∧ 0 < room)
      (do advance; pure (some nodes)) (fun nodes? feed =>
      ∀ nodes, nodes? = some nodes →
        Within T room feed ∧ ∀ node ∈ nodes, Made limit T (.statement node)) := by
  apply (delivers_advance fun _ h => h.1.advance_of_pos h.2).bind
  intro _
  apply delivers_pure
  intro feed hwithin others hothers
  obtain rfl : nodes = others := by simpa using hothers
  exact ⟨hwithin, hnodes⟩

theorem blockStep_delivers {room : Nat} (hroom : room < bound) :
    Delivers (Within T (room + 1)) (blockStep expression) (fun nodes? feed =>
      ∀ nodes, nodes? = some nodes →
        Within T room feed ∧ ∀ node ∈ nodes, Made limit T (.statement node)) := by
  apply delivers_current.bind
  intro token
  split
  · exact delivers_pure (by simp)
  · exact delivers_report.bind fun _ => delivers_pure (by simp)
  · next hend =>
      refine ((attempt_statement_delivers he hroom).pre ?_).bind_fact fun node? hnode => ?_
      · rintro feed ⟨hwithin, rfl⟩
        exact ⟨hwithin, hend⟩
      cases node? with
      | some node => exact delivers_stepEnd (by simpa using hnode)
      | none =>
          refine (delivers_skipTo _).bind fun _ => delivers_current.bind fun stop => ?_
          apply delivers_ite (fun _ => delivers_pure (by simp))
          intro _
          exact (delivers_stepEnd (by simp)).pre fun _ h => h.1

theorem block_delivers :
    Delivers (fun feed => Within T bound feed ∧ feed.current.kind = .leftBrace) (block expression)
      (fun node _ => Made limit T (.block node)) := by
  apply (delivers_current_of_kind .leftBrace (by decide)).bind_fact
  intro opening hopening
  apply (delivers_step.pre fun _ h => h.1).bind
  intro _
  apply (delivers_gather fun room => blockStep_delivers he).bind
  intro nodes
  exact delivers_pure fun _ hnodes => .block hopening.1 hnodes

theorem programStep_delivers {room : Nat} (hroom : room < bound) :
    Delivers (Within T (room + 1)) (programStep expression) (fun nodes? feed =>
      ∀ nodes, nodes? = some nodes →
        Within T room feed ∧ ∀ node ∈ nodes, Made limit T (.statement node)) := by
  refine delivers_current.bind fun token => delivers_ite (fun _ => ?_) (fun hend => ?_)
  · exact delivers_pure (by simp)
  refine ((attempt_statement_delivers he hroom).pre ?_).bind_fact fun node? hnode => ?_
  · rintro feed ⟨hwithin, rfl⟩
    exact ⟨hwithin, hend⟩
  cases node? with
  | some node => exact delivers_stepEnd (by simpa using hnode)
  | none => exact (delivers_skipTo _).bind fun _ => delivers_stepEnd (by simp)

theorem programStatements_delivers :
    Delivers (Within T bound) (programStatements expression)
      (fun nodes _ => ∀ node ∈ nodes, Made limit T (.statement node)) :=
  delivers_gather fun _ => programStep_delivers he

/-! ## Operands -/

omit he in
theorem integer_delivers :
    Delivers (fun feed => Within T bound feed ∧ feed.current.kind = .integer) (integer limit)
      (fun node _ => Made limit T (.expression node)) := by
  apply (delivers_current_of_kind .integer (by decide)).bind_fact
  intro token htoken
  split
  · next value hvalue =>
      refine delivers_ite (fun hle => ?_) fun _ => delivers_fail
      exact delivers_pure fun _ _ => .integer htoken.1 htoken.2 ⟨hvalue, hle⟩
  · exact delivers_fail

/-- Where an operand starts: its first token is of a known kind. -/
def Starts (T : Token → Prop) (bound : Nat) (kind : Kind) (feed : Feed) : Prop :=
  Within T (bound + 1) feed ∧ feed.current.kind = kind

theorem prefixed_delivers {kind : Kind} (hkind : kind ∈ Kind.prefixOperators) :
    Delivers (Starts T bound kind) (prefixed expression)
      (fun node _ => Made limit T (.expression node)) := by
  have hend : kind ≠ .endOfInput := by rintro rfl; simp [Kind.prefixOperators] at hkind
  apply (delivers_current_of_kind kind hend).bind_fact
  intro operator hoperator
  apply delivers_firstStep.bind
  intro _
  apply (he BindingPower.prefixed (by decide)).bind
  intro right
  exact delivers_pure fun _ hright => .prefixed hoperator.1 (hoperator.2 ▸ hkind) hright

theorem grouped_delivers :
    Delivers (Starts T bound .leftParen) (grouped expression)
      (fun node _ => Made limit T (.expression node)) := by
  refine (delivers_firstStep.pre fun _ h => ⟨h.1, ahead_ne_nil (by rw [h.2]; decide)⟩).bind
    fun _ => ?_
  apply he.lowest.bind_fact
  intro node hnode
  exact (delivers_next .rightParen).bind fun _ => delivers_pure fun _ _ => hnode

theorem alternative_delivers :
    Delivers (Within T bound) (alternative expression)
      (fun node _ => node = .missing ∨ Made limit T (.block node)) := by
  refine delivers_peek.bind fun next => delivers_ite (fun _ => ?_) fun _ => ?_
  · refine (delivers_step.pre fun _ h => h.1).bind fun _ => ?_
    refine (delivers_next .leftBrace).bind fun _ => ?_
    exact (block_delivers he).weaken (fun _ h => h) fun _ _ h => .inr h
  · exact delivers_pure fun _ _ => .inl rfl

theorem conditional_delivers :
    Delivers (Starts T bound .ifWord) (conditional expression)
      (fun node _ => Made limit T (.expression node)) := by
  apply (delivers_current_of_kind .ifWord (by decide)).bind_fact
  intro word hword
  apply (delivers_firstNext .leftParen).bind
  intro _
  apply (delivers_step.pre fun _ h => h.1).bind
  intro _
  apply he.lowest.bind_fact
  intro condition hcondition
  apply (delivers_next .rightParen).bind
  intro _
  apply ((delivers_next .leftBrace).pre fun _ h => h.1).bind
  intro _
  refine ((block_delivers he).keep fun _ _ h hbehind => h.1.behind hbehind).bind_fact
    fun block hblock => ?_
  apply (alternative_delivers he).bind
  intro alternative
  apply delivers_pure
  intro _ halternative
  rcases halternative with rfl | halternative
  · exact .conditional hword.1 hcondition hblock
  · exact .choice hword.1 hcondition hblock halternative

omit he in
theorem parameter_delivers :
    Delivers (Within T bound) parameter (fun node _ => Made limit T (.parameter node)) := by
  refine delivers_current.bind fun token => delivers_ite (fun hkind => ?_) fun _ => delivers_fail
  refine delivers_pure fun feed ⟨hwithin, htoken⟩ => ?_
  subst htoken
  exact .parameter (hwithin.current (by rw [hkind]; decide)) hkind

theorem function_delivers :
    Delivers (Starts T bound .functionWord) (function expression)
      (fun node _ => Made limit T (.expression node)) := by
  apply (delivers_current_of_kind .functionWord (by decide)).bind_fact
  intro word hword
  apply (delivers_firstNext .leftParen).bind
  intro _
  have hlist : Delivers (fun feed => Within T bound feed ∧ feed.current.kind = .leftParen)
      (listUpTo .rightParen parameter)
      (fun nodes _ => ∀ node ∈ nodes, Made limit T (.parameter node)) :=
    (delivers_listUpTo .rightParen parameter_delivers).pre fun _ h =>
      ⟨h.1.mono (Nat.le_succ _), ahead_ne_nil (by rw [h.2]; decide)⟩
  refine (hlist.keep fun _ _ h hbehind => h.1.behind hbehind).bind_fact
    fun parameters hparameters => ?_
  apply (delivers_next .leftBrace).bind
  intro _
  apply (block_delivers he).bind
  intro body
  exact delivers_pure fun _ hbody => .function hword.1 hword.2 hparameters hbody

theorem array_delivers :
    Delivers (Starts T bound .leftBracket) (array expression)
      (fun node _ => Made limit T (.expression node)) := by
  apply (delivers_current_of_kind .leftBracket (by decide)).bind_fact
  intro opening hopening
  apply (delivers_listUpTo .rightBracket (he _ (Nat.le_refl _))).bind
  intro elements
  exact delivers_pure fun _ helements => .array hopening.1 helements

theorem pair_delivers :
    Delivers (Within T bound) (pair expression) (fun p _ => Made limit T (.pair p.1 p.2)) := by
  apply he.lowest.bind_fact
  intro key hkey
  apply (delivers_next .colon).bind
  intro _
  apply (delivers_step.pre fun _ h => h.1).bind
  intro _
  apply he.lowest.bind_fact
  intro value hvalue
  exact delivers_pure fun _ _ => .pair hkey hvalue

theorem hash_delivers :
    Delivers (Starts T bound .leftBrace) (hash expression)
      (fun node _ => Made limit T (.expression node)) := by
  apply (delivers_current_of_kind .leftBrace (by decide)).bind_fact
  intro opening hopening
  apply (delivers_listUpTo .rightBrace (pair_delivers he)).bind
  intro pairs
  exact delivers_pure fun _ hpairs => .hash hopening.1 hpairs

theorem operand_delivers :
    Delivers (Within T (bound + 1)) (operand limit expression)
      (fun node _ => Made limit T (.expression node)) := by
  apply delivers_current.bind
  intro token
  have hstarts : ∀ {kind : Kind}, token.kind = kind → ∀ feed,
      Within T (bound + 1) feed ∧ token = feed.current → Starts T bound kind feed :=
    fun hkind _ h => ⟨h.1, by rw [← h.2, hkind]⟩
  have htoken : ∀ feed, Within T (bound + 1) feed ∧ token = feed.current →
      token.kind ≠ .endOfInput → T token :=
    fun feed h hne => by
      obtain ⟨hwithin, rfl⟩ := h
      exact hwithin.current hne
  split
  · next hkind => exact delivers_pure fun _ h => .identifier (htoken _ h (by simp [hkind])) hkind
  · next hkind => exact integer_delivers.pre (hstarts hkind)
  · next hkind => exact delivers_pure fun _ h => .string (htoken _ h (by simp [hkind])) hkind
  · next hkind => exact delivers_pure fun _ h => .trueWord (htoken _ h (by simp [hkind])) hkind
  · next hkind => exact delivers_pure fun _ h => .falseWord (htoken _ h (by simp [hkind])) hkind
  · next hkind => exact (prefixed_delivers he (by decide)).pre (hstarts hkind)
  · next hkind => exact (prefixed_delivers he (by decide)).pre (hstarts hkind)
  · next hkind => exact (grouped_delivers he).pre (hstarts hkind)
  · next hkind => exact (conditional_delivers he).pre (hstarts hkind)
  · next hkind => exact (function_delivers he).pre (hstarts hkind)
  · next hkind => exact (array_delivers he).pre (hstarts hkind)
  · next hkind => exact (hash_delivers he).pre (hstarts hkind)
  · exact delivers_fail

/-! ## Extensions -/

omit he in
/-- What binds tighter than nothing and is no bracket or period is an operator. -/
theorem mem_infixOperators {kind : Kind} (hpower : BindingPower.lowest < kind.bindingPower)
    (hcall : kind ≠ .leftParen) (hindex : kind ≠ .leftBracket) (hproperty : kind ≠ .period) :
    kind ∈ Kind.infixOperators := by
  cases kind <;> simp_all [Kind.bindingPower, BindingPower.lowest, Kind.infixOperators]

omit he in
theorem lowest_le_bindingPower (kind : Kind) : BindingPower.lowest ≤ kind.bindingPower := by
  cases kind <;> simp [Kind.bindingPower, BindingPower.lowest]

omit he in
theorem current_ne_endOfInput_of_power {feed : Feed}
    (h : BindingPower.lowest < feed.current.kind.bindingPower) :
    feed.current.kind ≠ .endOfInput := by
  intro hend
  simp [hend, Kind.bindingPower] at h

/-- Where an extension starts: its first token goes on with an operand. -/
def Extends (T : Token → Prop) (bound : Nat) (feed : Feed) : Prop :=
  Within T bound feed ∧ BindingPower.lowest < feed.current.kind.bindingPower

theorem call_delivers {callee : Node} (hcallee : Made limit T (.expression callee)) :
    Delivers (fun feed => Within T bound feed ∧ feed.current.kind ≠ .endOfInput)
      (call expression callee) (fun node _ => Made limit T (.expression node)) := by
  apply delivers_front.bind_fact
  intro opening hopening
  refine ((delivers_listUpTo .rightParen (he _ (Nat.le_refl _))).pre fun _ h =>
    ⟨h.1.mono (Nat.le_succ _), h.2⟩).bind fun arguments => ?_
  exact delivers_pure fun _ harguments => .call hcallee hopening harguments

theorem index_delivers {target : Node} (htarget : Made limit T (.expression target)) :
    Delivers (fun feed => Within T bound feed ∧ feed.current.kind ≠ .endOfInput)
      (index expression target) (fun node _ => Made limit T (.expression node)) := by
  apply delivers_front.bind_fact
  intro opening hopening
  apply (delivers_step.pre fun _ h => h.1).bind
  intro _
  apply he.lowest.bind_fact
  intro key hkey
  exact (delivers_next .rightBracket).bind fun _ =>
    delivers_pure fun _ _ => .index htarget hopening hkey

omit he in
theorem property_delivers {target : Node} (htarget : Made limit T (.expression target)) :
    Delivers (fun feed => Within T bound feed ∧ feed.current.kind ≠ .endOfInput)
      (property target) (fun node _ => Made limit T (.expression node)) := by
  apply delivers_front.bind_fact
  intro period hperiod
  apply ((delivers_next .identifier).pre fun _ h => h.1).bind
  intro _
  apply (delivers_current_of_kind .identifier (by decide)).bind_fact
  intro name hname
  exact delivers_pure fun _ _ => .property htarget hperiod hname.1 hname.2

theorem binary_delivers {left : Node} (hleft : Made limit T (.expression left)) :
    Delivers (fun feed => Within T bound feed ∧ feed.current.kind ∈ Kind.infixOperators)
      (binary expression left) (fun node _ => Made limit T (.expression node)) := by
  have hcurrent : Delivers
      (fun feed => Within T bound feed ∧ feed.current.kind ∈ Kind.infixOperators) current
      (fun token feed => Within T bound feed ∧ T token ∧ token.kind ∈ Kind.infixOperators) :=
    delivers_current.weaken (fun _ h => h) fun token feed ⟨⟨hwithin, hkind⟩, htoken⟩ => by
      subst htoken
      have hend : feed.current.kind ≠ .endOfInput := by
        rintro hend
        simp [hend, Kind.infixOperators] at hkind
      exact ⟨hwithin, hwithin.current hend, hkind⟩
  apply hcurrent.bind_fact
  intro operator hoperator
  apply delivers_step.bind
  intro _
  apply (he _ (lowest_le_bindingPower _)).bind
  intro right
  exact delivers_pure fun _ hright => .binary hleft hoperator.1 hoperator.2 hright

theorem extension_delivers {left : Node} (hleft : Made limit T (.expression left)) :
    Delivers (Extends T bound) (extension expression left)
      (fun node _ => Made limit T (.expression node)) := by
  apply delivers_current.bind
  intro token
  have hfront : ∀ feed, Extends T bound feed ∧ token = feed.current →
      Within T bound feed ∧ feed.current.kind ≠ .endOfInput :=
    fun _ h => ⟨h.1.1, current_ne_endOfInput_of_power h.1.2⟩
  split
  · exact (call_delivers he hleft).pre hfront
  · exact (index_delivers he hleft).pre hfront
  · exact (property_delivers hleft).pre hfront
  · next hcall hindex hproperty =>
      refine (binary_delivers he hleft).pre fun feed h => ⟨h.1.1, ?_⟩
      obtain ⟨⟨-, hpower⟩, rfl⟩ := h
      exact mem_infixOperators hpower hcall hindex hproperty

theorem extendUpTo_delivers {power : Nat} (hpower : BindingPower.lowest ≤ power) {room : Nat}
    (hroom : room ≤ bound) {left : Node} (hleft : Made limit T (.expression left)) :
    Delivers (Within T (room + 1)) (extendUpTo expression power (room + 1) left)
      (fun node _ => Made limit T (.expression node)) := by
  induction room generalizing left with
  | zero =>
      refine delivers_peek.bind fun next => delivers_ite (fun htighter => ?_) fun _ => ?_
      · rintro feed ⟨hwithin, rfl⟩
        have hne := current_ne_endOfInput_of_power (Nat.lt_of_le_of_lt hpower htighter)
        exact absurd (hwithin.pos (ahead_ne_nil_of_advance (ahead_ne_nil hne))) (Nat.lt_irrefl 0)
      · exact delivers_pure fun _ _ => hleft
  | succ room ih =>
      refine delivers_peek.bind fun next => delivers_ite (fun htighter => ?_) fun _ => ?_
      · have hadvance : Delivers
            (fun feed => Within T (room + 1 + 1) feed ∧ next = feed.advance.current) advance
            (fun _ feed => Within T (room + 1) feed ∧
              BindingPower.lowest < feed.current.kind.bindingPower) :=
          delivers_advance fun feed ⟨hwithin, hnext⟩ => by
            have hlowest : BindingPower.lowest < feed.advance.current.kind.bindingPower :=
              hnext ▸ Nat.lt_of_le_of_lt hpower htighter
            have hahead := ahead_ne_nil (current_ne_endOfInput_of_power hlowest)
            exact ⟨hwithin.advance (ahead_ne_nil_of_advance hahead), hlowest⟩
        refine hadvance.bind fun _ => ?_
        refine (((extension_delivers he hleft).pre fun _ h => ⟨h.1.mono hroom, h.2⟩).keep
          fun _ _ h hbehind => h.1.behind hbehind).bind_fact fun longer hlonger => ?_
        exact ih (Nat.le_of_succ_le hroom) hlonger
      · exact delivers_pure fun _ _ => hleft

theorem extend_delivers {power : Nat} (hpower : BindingPower.lowest ≤ power) {left : Node}
    (hleft : Made limit T (.expression left)) :
    Delivers (Within T (bound + 1)) (extend expression power left)
      (fun node _ => Made limit T (.expression node)) :=
  fun feed hfeed => extendUpTo_delivers he hpower (Nat.le_of_lt_succ hfeed.1) hleft feed
    ⟨Nat.lt_succ_self _, hfeed.2⟩

/-! ## The knot -/

/-- With a reader of expressions on shorter feeds an expression is read. -/
theorem extendedOperand_delivers {power : Nat} (hpower : BindingPower.lowest ≤ power) :
    Delivers (Within T (bound + 1)) (do
      let left ← operand limit expression
      extend expression power left) (fun node _ => Made limit T (.expression node)) :=
  ((operand_delivers he).keep fun _ _ h => h.behind).bind_fact fun _ hleft =>
    extend_delivers he hpower hleft

end

theorem expression_delivers (limit : Numeral.DigitLimit) (T : Token → Prop) (depth : Nat) :
    DeliversExpressions limit T depth (Parser.expression limit depth) := by
  induction depth with
  | zero => exact fun _ _ feed h => absurd h.1 (Nat.not_lt_zero _)
  | succ depth ih => exact fun power hpower => extendedOperand_delivers ih hpower

end Parser

/-- Reading a program from a feed always ends with a reply, and its statements are all made by
the parser. -/
theorem Parse.ofFeed_reply (limit : Numeral.DigitLimit) {T : Token → Prop} {feed : Feed}
    (hT : ∀ token ∈ feed.ahead, T token) :
    ∃ reply,
      Parser.programStatements (Parser.expression limit (feed.ahead.length + 1)) feed = some reply ∧
      Parse.ofFeed feed limit = ⟨.program feed.current (reply.value?.getD []), reply.errors⟩ ∧
      ∀ nodes, reply.value? = some nodes → ∀ node ∈ nodes, Made limit T (.statement node) := by
  obtain ⟨reply, hreply, -, hvalue⟩ :=
    Parser.programStatements_delivers (Parser.expression_delivers limit T (feed.ahead.length + 1))
      feed ⟨Nat.lt_succ_self _, hT⟩
  exact ⟨reply, hreply, by simp [Parse.ofFeed, hreply], hvalue⟩

end MonkeyLanguage
