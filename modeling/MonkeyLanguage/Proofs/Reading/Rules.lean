-- SUMMARY: What it takes for each rule of the language to read without errors.
import MonkeyLanguage.Proofs.Reading.Failure

/-!
# Rules without errors

One lemma for each rule says what the rule reads when it reads without errors: which tokens
it looks for, which expressions it reads in between, and which tree it makes of them.
-/

namespace MonkeyLanguage.Parser

variable {limit : Numeral.DigitLimit} {expression : ExpressionParser} {feed rest : Feed}
  {node : Node}

/-! ## Statements -/

theorem yields_letStatement :
    Yields (letStatement expression) feed node rest ↔
      feed.advance.current.kind = .identifier ∧ feed.advance.advance.current.kind = .assign ∧
        ∃ value mid,
          Yields (expression BindingPower.lowest) feed.advance.advance.advance value mid ∧
            rest = mid.skipSemicolons ∧
              node = .letStatement feed.current
                (.identifier feed.advance.current feed.advance.current.literal) value := by
  simp [letStatement, and_comm]

theorem yields_returnStatement :
    Yields (returnStatement expression) feed node rest ↔
      ∃ value mid, Yields (expression BindingPower.lowest) feed.advance value mid ∧
        rest = mid.skipSemicolons ∧ node = .returnStatement feed.current value := by
  simp [returnStatement, and_comm]

theorem yields_expressionStatement :
    Yields (expressionStatement expression) feed node rest ↔
      ∃ value mid, Yields (expression BindingPower.lowest) feed value mid ∧
        rest = mid.skipSemicolons ∧ node = .expressionStatement feed.current value := by
  simp [expressionStatement, and_comm]

theorem yields_statement :
    Yields (statement expression) feed node rest ↔
      match feed.current.kind with
      | .letWord => Yields (letStatement expression) feed node rest
      | .returnWord => Yields (returnStatement expression) feed node rest
      | _ => Yields (expressionStatement expression) feed node rest := by
  rw [statement, yields_current_bind]
  generalize feed.current.kind = kind
  cases kind <;> rfl

theorem yields_block :
    Yields (block expression) feed node rest ↔
      ∃ nodes, Yields (gather (blockStep expression)) feed.advance nodes rest ∧
        node = .block feed.current nodes := by
  simp [block]

/-! ## Operands -/

theorem yields_integer :
    Yields (integer limit) feed node rest ↔
      ∃ value, Numeral.read? feed.current.literal limit = some value ∧ value ≤ largestInteger ∧
        node = .integer feed.current value ∧ rest = feed := by
  simp only [integer, yields_bind, yields_current]
  constructor
  · rintro ⟨_, mid, ⟨rfl, rfl⟩, h⟩
    split at h
    · simp only [yields_ite, yields_pure, not_yields_fail] at h
      split at h
      · exact ⟨_, ‹_›, ‹_›, h⟩
      · exact h.elim
    · exact absurd h not_yields_fail
  · rintro ⟨value, hread, hle, rfl, rfl⟩
    exact ⟨_, _, ⟨rfl, rfl⟩, by simp [hread, hle]⟩

theorem yields_prefixed :
    Yields (prefixed expression) feed node rest ↔
      ∃ right, Yields (expression BindingPower.prefixed) feed.advance right rest ∧
        node = .prefixed feed.current feed.current.literal right := by
  simp [prefixed]

theorem yields_grouped :
    Yields (grouped expression) feed node rest ↔
      ∃ mid, Yields (expression BindingPower.lowest) feed.advance node mid ∧
        mid.advance.current.kind = .rightParen ∧ rest = mid.advance := by
  simp [grouped]

theorem yields_alternative :
    Yields (alternative expression) feed node rest ↔
      if feed.advance.current.kind = .elseWord then
        feed.advance.advance.current.kind = .leftBrace ∧
          Yields (block expression) feed.advance.advance node rest
      else node = .missing ∧ rest = feed := by
  simp [alternative]

theorem yields_conditional :
    Yields (conditional expression) feed node rest ↔
      feed.advance.current.kind = .leftParen ∧ ∃ condition mid,
        Yields (expression BindingPower.lowest) feed.advance.advance condition mid ∧
          mid.advance.current.kind = .rightParen ∧
            mid.advance.advance.current.kind = .leftBrace ∧ ∃ consequence last,
              Yields (block expression) mid.advance.advance consequence last ∧ ∃ otherwise,
                Yields (alternative expression) last otherwise rest ∧
                  node = .conditional feed.current condition consequence otherwise := by
  simp [conditional]

theorem yields_parameter :
    Yields parameter feed node rest ↔
      feed.current.kind = .identifier ∧
        node = .identifier feed.current feed.current.literal ∧ rest = feed := by
  simp [parameter]

theorem yields_function :
    Yields (function expression) feed node rest ↔
      feed.advance.current.kind = .leftParen ∧ ∃ parameters mid,
        Yields (listUpTo .rightParen parameter) feed.advance parameters mid ∧
          mid.advance.current.kind = .leftBrace ∧ ∃ body,
            Yields (block expression) mid.advance body rest ∧
              node = .function feed.current parameters body := by
  simp [function, -yields_listUpTo]

theorem yields_array :
    Yields (array expression) feed node rest ↔
      ∃ elements,
        Yields (listUpTo .rightBracket (expression BindingPower.lowest)) feed elements rest ∧
          node = .array feed.current elements := by
  simp [array, -yields_listUpTo]

theorem yields_pair {key value : Node} :
    Yields (pair expression) feed (key, value) rest ↔
      ∃ mid, Yields (expression BindingPower.lowest) feed key mid ∧
        mid.advance.current.kind = .colon ∧
          Yields (expression BindingPower.lowest) mid.advance.advance value rest := by
  simp [pair]

theorem yields_hash :
    Yields (hash expression) feed node rest ↔
      ∃ pairs, Yields (listUpTo .rightBrace (pair expression)) feed pairs rest ∧
        node = .hash feed.current pairs := by
  simp [hash, -yields_listUpTo]

theorem yields_operand :
    Yields (operand limit expression) feed node rest ↔
      match feed.current.kind with
      | .identifier => node = .identifier feed.current feed.current.literal ∧ rest = feed
      | .integer => Yields (integer limit) feed node rest
      | .string => node = .string feed.current feed.current.literal ∧ rest = feed
      | .trueWord => node = .boolean feed.current true ∧ rest = feed
      | .falseWord => node = .boolean feed.current false ∧ rest = feed
      | .bang | .minus => Yields (prefixed expression) feed node rest
      | .leftParen => Yields (grouped expression) feed node rest
      | .ifWord => Yields (conditional expression) feed node rest
      | .functionWord => Yields (function expression) feed node rest
      | .leftBracket => Yields (array expression) feed node rest
      | .leftBrace => Yields (hash expression) feed node rest
      | _ => False := by
  rw [operand, yields_current_bind]
  generalize feed.current.kind = kind
  cases kind <;> simp

/-! ## Extensions -/

variable {left : Node}

theorem yields_call :
    Yields (call expression left) feed node rest ↔
      ∃ arguments,
        Yields (listUpTo .rightParen (expression BindingPower.lowest)) feed arguments rest ∧
          node = .call feed.current left arguments := by
  simp [call, -yields_listUpTo]

theorem yields_index :
    Yields (index expression left) feed node rest ↔
      ∃ key mid, Yields (expression BindingPower.lowest) feed.advance key mid ∧
        mid.advance.current.kind = .rightBracket ∧ rest = mid.advance ∧
          node = .index feed.current left key := by
  simp only [index, yields_bind, yields_current, yields_advance, yields_expect, yields_pure]
  constructor
  · rintro ⟨_, _, ⟨rfl, rfl⟩, _, _, rfl, key, mid, hkey, _, _, ⟨hclose, rfl⟩, rfl, rfl⟩
    exact ⟨key, mid, hkey, hclose, rfl, rfl⟩
  · rintro ⟨key, mid, hkey, hclose, rfl, rfl⟩
    exact ⟨_, _, ⟨rfl, rfl⟩, (), _, rfl, key, mid, hkey, (), _, ⟨hclose, rfl⟩, rfl, rfl⟩

theorem yields_property :
    Yields (property left) feed node rest ↔
      feed.advance.current.kind = .identifier ∧ rest = feed.advance ∧
        node = .index feed.current left
          (.string feed.advance.current feed.advance.current.literal) := by
  simp [property, and_comm]

theorem yields_binary :
    Yields (binary expression left) feed node rest ↔
      ∃ right, Yields (expression feed.current.kind.bindingPower) feed.advance right rest ∧
        node = .binary feed.current feed.current.literal left right := by
  simp [binary]

theorem yields_extension :
    Yields (extension expression left) feed node rest ↔
      match feed.current.kind with
      | .leftParen => Yields (call expression left) feed node rest
      | .leftBracket => Yields (index expression left) feed node rest
      | .period => Yields (property left) feed node rest
      | _ => Yields (binary expression left) feed node rest := by
  rw [extension, yields_current_bind]
  generalize feed.current.kind = kind
  cases kind <;> rfl

theorem yields_extendUpTo {power bound : Nat} :
    Yields (extendUpTo expression power (bound + 1) left) feed node rest ↔
      if power < feed.advance.current.kind.bindingPower then
        ∃ longer mid, Yields (extension expression left) feed.advance longer mid ∧
          Yields (extendUpTo expression power bound longer) mid node rest
      else node = left ∧ rest = feed := by
  simp [extendUpTo]

end MonkeyLanguage.Parser
