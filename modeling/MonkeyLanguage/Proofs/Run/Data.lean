-- SUMMARY: Printed numbers, truth values, arrays and hashes are read back as what they are.
import MonkeyLanguage.Proofs.Canonical.Reparse
import MonkeyLanguage.Proofs.Run.Hashes
import MonkeyLanguage.Value.Inspect

/-!
# Printed data

The printed form of a number, a truth value, or an array or hash of such values is an expression of
the language, and the value of that expression is what was printed. A negative number comes back as
an operator in front of a number, and a hash comes back entry by entry.
-/

namespace MonkeyLanguage

/-- The value is made of numbers and truth values by putting them into arrays and hashes. The
absolute values of the numbers can be written down, and all keys are numbers or truth values. -/
inductive Value.IsData : Value → Prop where
  | integer {n : Int} : -0x8000000000000000 < n → n < 0x8000000000000000 → IsData (.integer n)
  | boolean (value : Bool) : IsData (.boolean value)
  | array {elements : List Value} :
      (∀ element ∈ elements, IsData element) → IsData (.array elements)
  | hash {entries : List (HashKey × Value)} :
      (Table.keys entries).Nodup → (∀ entry ∈ entries, IsData entry.1.toValue) →
      (∀ entry ∈ entries, IsData entry.2) → IsData (.hash entries)

/-! ## Shapes of printed data -/

/-- The shapes of a printed number. -/
def integerShapes (n : Int) : List Shape :=
  if n < 0 then [Kind.minus.symbol, (.integer, n.natAbs.repr)] else [(.integer, n.natAbs.repr)]

/-- The shapes of a printed truth value. -/
def booleanShapes (value : Bool) : List Shape :=
  [(if value then .trueWord else .falseWord, if value then "true" else "false")]

/-- The shapes of a printed key. -/
def HashKey.spelling : HashKey → List Shape
  | integer n => integerShapes n
  | string _ => []
  | boolean value => booleanShapes value

namespace Value

mutual

/-- The shapes of the tokens in printed data. -/
def spelling : Value → List Shape
  | integer n => integerShapes n
  | boolean value => booleanShapes value
  | array elements =>
    Kind.leftBracket.symbol :: commaShapes (spellAll elements) ++ [Kind.rightBracket.symbol]
  | hash entries =>
    Kind.leftBrace.symbol :: commaShapes (spellEntries entries) ++ [Kind.rightBrace.symbol]
  | _ => []

/-- The shapes of several values. -/
def spellAll : List Value → List (List Shape)
  | [] => []
  | value :: rest => value.spelling :: spellAll rest

/-- The shapes of the entries of a hash. -/
def spellEntries : List (HashKey × Value) → List (List Shape)
  | [] => []
  | (key, value) :: rest =>
    (key.spelling ++ Kind.colon.symbol :: value.spelling) :: spellEntries rest

end

theorem spellAll_eq_map (values : List Value) : spellAll values = values.map spelling := by
  induction values with
  | nil => rfl
  | cons value rest ih => rw [spellAll, ih, List.map_cons]

theorem spellEntries_eq_map (entries : List (HashKey × Value)) :
    spellEntries entries =
      entries.map fun entry => entry.1.spelling ++ Kind.colon.symbol :: entry.2.spelling := by
  induction entries with
  | nil => rfl
  | cons entry rest ih => rw [spellEntries, ih, List.map_cons]

theorem spelling_toValue (key : HashKey) : key.toValue.spelling = key.spelling := by
  cases key <;> rfl

theorem inspect_toValue (key : HashKey) : key.toValue.inspect = key.inspect := by
  cases key <;> rfl

theorem spells_integer (n : Int) : Spells (toString n) (integerShapes n) := by
  intro rest hrest
  rw [Int.toString_eq_repr, Int.repr_eq_if, integerShapes]
  by_cases hn : n < 0
  · have habs : (-n).toNat = n.natAbs := by omega
    rw [if_neg (Int.not_le.2 hn), if_pos hn, habs, String.toList_append]
    change shapes ('-' :: (n.natAbs.repr.toList ++ rest)) = _
    rw [shapes_delimiter (by decide) (by decide), shapes_digits (Numeral.isDigits_repr _) hrest,
      String.ofList_toList]
    rfl
  · have habs : n.toNat = n.natAbs := by omega
    rw [if_pos (Int.not_lt.1 hn), if_neg hn, habs, shapes_digits (Numeral.isDigits_repr _) hrest,
      String.ofList_toList]
    rfl

theorem spells_boolean (value : Bool) :
    Spells (if value then "true" else "false") (booleanShapes value) := by
  intro rest hrest
  cases value with
  | false => exact shapes_keyword (by decide) hrest
  | true => exact shapes_keyword (by decide) hrest

/-- Printed data is scanned into its shapes. -/
theorem IsData.spells {value : Value} (h : value.IsData) : Spells value.inspect value.spelling := by
  induction h with
  | integer => exact spells_integer _
  | boolean value => exact spells_boolean value
  | array _ ih =>
      rw [inspect, spelling, inspectAll_eq_map, spellAll_eq_map]
      apply spells_array
      rw [List.forall₂_map_left_iff, List.forall₂_map_right_iff]
      exact List.forall₂_same.2 ih
  | hash _ _ _ ihKeys ihValues =>
      rw [inspect, spelling, inspectEntries_eq_map, spellEntries_eq_map]
      apply spells_hash
      rw [List.forall₂_map_left_iff, List.forall₂_map_right_iff]
      refine List.forall₂_same.2 fun entry hentry => ?_
      have hkey := ihKeys entry hentry
      rw [inspect_toValue, spelling_toValue] at hkey
      exact spells_pair hkey (ihValues entry hentry)

end Value

/-! ## Expressions that stand for data -/

/-- The node stands for the value: that is what comes of it wherever it is evaluated, and nothing
else happens. -/
def Node.Denotes (node : Node) (value : Value) : Prop :=
  ∀ host call scope machine, evaluate host call scope node machine = .ok value machine

namespace Node.Denotes

variable {host : Host} {call : Call} {scope : ScopeId} {machine : Machine}

theorem integer (token : Token) (n : Int) : (Node.integer token n).Denotes (.integer n) :=
  fun _ _ _ _ => rfl

theorem boolean (token : Token) (value : Bool) :
    (Node.boolean token value).Denotes (.boolean value) :=
  fun _ _ _ _ => rfl

/-- Minus in front of a number gives its opposite, if this is in range. -/
theorem negative {node : Node} {n : Int} (h : node.Denotes (.integer n))
    (hn : Integer.InRange (-n)) (token : Token) :
    (Node.prefixed token "-" node).Denotes (.integer (-n)) := by
  intro host call scope machine
  rw [evaluate, Eval.withValue, Eval.ok_bind (h host call scope machine)]
  change EStateM.Result.ok (Value.integer (Integer.wrap (-n))) machine = _
  rw [Integer.wrap_of_inRange hn]

theorem evaluateAll {nodes : List Node} {values : List Value}
    (h : List.Forall₂ (fun value node => node.Denotes value) values nodes)
    (herror : ∀ value ∈ values, value.isError = false) :
    MonkeyLanguage.evaluateAll host call scope nodes machine = .ok (.ok values) machine := by
  induction h with
  | nil => rfl
  | @cons value node values nodes hnode _ ih =>
      obtain ⟨hvalue, hvalues⟩ := List.forall_mem_cons.1 herror
      rw [MonkeyLanguage.evaluateAll, Eval.ok_bind (hnode host call scope machine)]
      cases value with
      | error cause => cases hvalue
      | _ =>
          simp only
          rw [Eval.ok_bind (ih hvalues)]
          rfl

theorem array {nodes : List Node} {values : List Value}
    (h : List.Forall₂ (fun value node => node.Denotes value) values nodes)
    (herror : ∀ value ∈ values, value.isError = false) (token : Token) :
    (Node.array token nodes).Denotes (.array values) := by
  intro host call scope machine
  rw [evaluate, Eval.ok_bind (evaluateAll h herror)]
  rfl

/-- Pairs of nodes that stand for keys and values give these as entries. -/
theorem gathers {pairs : List (Node × Node)} {entries : List (HashKey × Value)}
    (h : List.Forall₂ (fun entry pair => pair.1.Denotes entry.1.toValue ∧ pair.2.Denotes entry.2)
      entries pairs)
    (herror : ∀ entry ∈ entries, entry.2.isError = false) :
    Gathers host call scope pairs machine entries machine := by
  induction h with
  | nil => exact .nil machine
  | cons hpair _ ih =>
      obtain ⟨hvalue, hvalues⟩ := List.forall_mem_cons.1 herror
      exact .cons (hpair.1 ..) (hpair.2 ..) hvalue (ih hvalues)

theorem hash {pairs : List (Node × Node)} {entries : List (HashKey × Value)}
    (h : List.Forall₂ (fun entry pair => pair.1.Denotes entry.1.toValue ∧ pair.2.Denotes entry.2)
      entries pairs)
    (herror : ∀ entry ∈ entries, entry.2.isError = false) (hkeys : (Table.keys entries).Nodup)
    (token : Token) : (Node.hash token pairs).Denotes (.hash entries) := by
  intro host call scope machine
  rw [(gathers h herror).evaluate_hash, Table.ofEntries_eq_self hkeys]

/-- A program that is an expression stands for the value of the expression. -/
theorem program {node : Node} {value : Value} (h : node.Denotes value)
    (hsignal : value.isSignal = false) (hreceived : value.received = value) (token first : Token) :
    (Node.program token [.expressionStatement first node]).Denotes value := by
  intro host call scope machine
  have hstatement : evaluate host call scope (.expressionStatement first node) machine =
      .ok value machine := by
    rw [evaluate]
    exact h ..
  have hsequence : evaluateSequence host call scope .null [.expressionStatement first node]
      machine = .ok value machine := by
    rw [evaluateSequence, Eval.ok_bind hstatement, hsignal]
    rfl
  rw [evaluate, Eval.ok_bind hsequence, hreceived]
  rfl

end Node.Denotes

/-! ## Reading printed data -/

/-- Tokens of these shapes are read as an expression that stands for the value. -/
def ReadsAs (limit : Numeral.DigitLimit) (spelled : List Shape) (value : Value) : Prop :=
  ∀ ts : List Token, ts.map Token.shape = spelled →
    ∃ node : Node, node.Denotes value ∧ Parser.ReadsExpression limit BindingPower.lowest ts node

section

variable {limit : Numeral.DigitLimit}

/-- A token with the digits of a number is read as this number. -/
theorem readsOperand_repr (hlimit : ∀ most ∈ limit, 19 ≤ most) {n : Nat}
    (hn : n < 0x8000000000000000) {token : Token} (h : token.shape = (.integer, n.repr)) :
    Parser.ReadsOperand limit [token] (.integer token n) := by
  obtain ⟨hkind, hliteral⟩ := Prod.mk.inj h
  have hwritten := Numeral.written_repr hlimit hn
  rw [← hliteral] at hwritten
  obtain ⟨hread, hle⟩ := (Numeral.reads_iff_written hwritten.digits).2 hwritten
  exact Parser.readsOperand_integer hkind hread hle

theorem readsAs_integer (hlimit : ∀ most ∈ limit, 19 ≤ most) {n : Int}
    (hleast : -0x8000000000000000 < n) (hmost : n < 0x8000000000000000) :
    ReadsAs limit (integerShapes n) (.integer n) := by
  have hn : n.natAbs < 0x8000000000000000 := by omega
  intro ts hts
  rw [integerShapes] at hts
  split at hts
  case isTrue hnegative =>
    obtain ⟨sign, us, rfl, hsign, hus⟩ := List.map_eq_cons_iff.1 hts
    obtain ⟨token, rfl, htoken⟩ := List.map_eq_singleton_iff.1 hus
    obtain ⟨hkind, hliteral⟩ := Prod.mk.inj hsign
    have hoperator : sign.kind ∈ Kind.prefixOperators := by
      rw [hkind]
      decide
    have hread := ((readsOperand_repr hlimit hn htoken).chain.prefixed hoperator).readsExpression
      (.stop (by simp))
    have hvalue : n = -(n.natAbs : Int) := by omega
    have hrange : Integer.InRange (-(n.natAbs : Int)) := ⟨by omega, by omega⟩
    have hdenotes := (Node.Denotes.integer token n.natAbs).negative hrange sign
    rw [← hvalue] at hdenotes
    rw [hliteral] at hread
    exact ⟨_, hdenotes, hread⟩
  case isFalse hpositive =>
    obtain ⟨token, rfl, htoken⟩ := List.map_eq_singleton_iff.1 hts
    have hvalue : (n.natAbs : Int) = n := by omega
    have hread := readsOperand_repr hlimit hn htoken
    rw [hvalue] at hread
    exact ⟨_, .integer token n, hread.readsExpression (by decide)⟩

theorem readsAs_boolean (value : Bool) : ReadsAs limit (booleanShapes value) (.boolean value) := by
  intro ts hts
  obtain ⟨token, rfl, htoken⟩ := List.map_eq_singleton_iff.1 hts
  have hread : Parser.ReadsOperand limit [token] (.boolean token value) :=
    Parser.readsOperand_boolean value (congrArg Prod.fst htoken)
  exact ⟨_, .boolean token value, hread.readsExpression (by decide)⟩

theorem readsAs_array {elements : List Value}
    (h : ∀ element ∈ elements, ReadsAs limit element.spelling element)
    (herror : ∀ element ∈ elements, element.isError = false) :
    ReadsAs limit (Value.array elements).spelling (.array elements) := by
  intro ts hts
  rw [Value.spelling, Value.spellAll_eq_map] at hts
  obtain ⟨opening, us, closing, rfl, hopen, hus, hclose⟩ := exists_bracketed hts
  obtain ⟨nodes, hnodes, hlist⟩ := exists_separated h hus
  exact ⟨_, .array hnodes herror opening,
    (Parser.readsOperand_array hlist hopen hclose).readsExpression (by decide)⟩

theorem readsAs_pair {key : HashKey} {value : Value} (hkey : ReadsAs limit key.spelling key.toValue)
    (hvalue : ReadsAs limit value.spelling value) {ts : List Token}
    (hts : ts.map Token.shape = key.spelling ++ Kind.colon.symbol :: value.spelling) :
    ∃ pair : Node × Node, (pair.1.Denotes key.toValue ∧ pair.2.Denotes value) ∧
      Parser.ReadsItem limit Parser.pair ts pair := by
  obtain ⟨ks, back, rfl, hks, hback⟩ := List.map_eq_append_iff.1 hts
  obtain ⟨colon, vs, rfl, hcolon, hvs⟩ := List.map_eq_cons_iff.1 hback
  obtain ⟨keyNode, hkeyNode, hreadKey⟩ := hkey ks hks
  obtain ⟨valueNode, hvalueNode, hreadValue⟩ := hvalue vs hvs
  exact ⟨(keyNode, valueNode), ⟨hkeyNode, hvalueNode⟩,
    hreadKey.pair (colon.kind_of_shape hcolon) hreadValue⟩

theorem readsAs_hash {entries : List (HashKey × Value)} (hkeys : (Table.keys entries).Nodup)
    (h : ∀ entry ∈ entries, ReadsAs limit entry.1.spelling entry.1.toValue ∧
      ReadsAs limit entry.2.spelling entry.2)
    (herror : ∀ entry ∈ entries, entry.2.isError = false) :
    ReadsAs limit (Value.hash entries).spelling (.hash entries) := by
  intro ts hts
  rw [Value.spelling, Value.spellEntries_eq_map] at hts
  obtain ⟨opening, us, closing, rfl, hopen, hus, hclose⟩ := exists_bracketed hts
  obtain ⟨pairs, hpairs, hlist⟩ :=
    exists_separated (fun entry hentry _ => readsAs_pair (h entry hentry).1 (h entry hentry).2) hus
  exact ⟨_, .hash hpairs herror hkeys opening,
    (Parser.readsOperand_hash hlist hopen hclose).readsExpression (by decide)⟩

theorem Value.IsData.isError {value : Value} (h : value.IsData) : value.isError = false := by
  cases h <;> rfl

theorem Value.IsData.readsAs (hlimit : ∀ most ∈ limit, 19 ≤ most) {value : Value}
    (h : value.IsData) : ReadsAs limit value.spelling value := by
  induction h with
  | integer hleast hmost => exact readsAs_integer hlimit hleast hmost
  | boolean value => exact readsAs_boolean value
  | array helements ih =>
      exact readsAs_array ih fun element helement => (helements element helement).isError
  | hash hkeys _ hvalues ihKeys ihValues =>
      refine readsAs_hash hkeys (fun entry hentry => ⟨?_, ihValues entry hentry⟩)
        fun entry hentry => (hvalues entry hentry).isError
      have hkey := ihKeys entry hentry
      rwa [Value.spelling_toValue] at hkey

end

/-! ## Running printed data -/

theorem Value.IsData.belongs {value : Value} (h : value.IsData) (machine : Machine) :
    value.Belongs machine := by
  induction h with
  | array _ ih => exact .array ih
  | hash hkeys _ _ _ ih => exact .hash hkeys ih
  | _ => constructor

theorem Value.IsData.received {value : Value} (h : value.IsData) : value.received = value := by
  cases h <;> rfl

theorem Value.IsData.isSignal {value : Value} (h : value.IsData) : value.isSignal = false := by
  cases h <;> rfl

namespace Settings

/-- A program that stands for data has this data as its result. -/
theorem exists_run_of_denotes (settings : Settings) (scope : ScopeId) {program : Node}
    {value : Value} (hvalue : value.IsData) (h : program.Denotes value) (machine : Machine) :
    ∃ final, settings.run scope program machine = .ok value final := by
  have hmeaning : (settings.begin scope program machine).meaning settings.toHost =
      .ok value (settings.begin scope program machine).machine :=
    h ..
  rw [run_eq, hmeaning]
  cases hvalue <;> exact ⟨_, rfl⟩

/-- Printed data is read without errors, and running it gives the data back, with the entries of
hashes in the same order, wherever it is run. The host must allow for numerals of 19 digits. -/
theorem data_readBack (settings : Settings) {limit : Numeral.DigitLimit}
    (hlimit : ∀ most ∈ limit, 19 ≤ most) {value : Value} (h : value.IsData) (scope : ScopeId)
    (machine : Machine) :
    (Parse.ofSource value.inspect limit).errors = [] ∧
      (∃ final, settings.run scope (Parse.ofSource value.inspect limit).program machine =
        .ok value final) ∧ value.equals value = true := by
  obtain ⟨first, node, hnode, hparse⟩ :
      ∃ first node, node.Denotes value ∧ Parse.ofSource value.inspect limit =
        ⟨.program (Feed.ofSource value.inspect).current [.expressionStatement first node], []⟩ := by
    apply Parse.exists_of_expression
    have hshapes := h.spells [] apart_nil
    rw [List.append_nil, shapes_nil, List.append_nil] at hshapes
    intro ts hts
    exact h.readsAs hlimit ts (hts.trans hshapes)
  rw [hparse]
  have hprogram := hnode.program h.isSignal h.received (Feed.ofSource value.inspect).current first
  exact ⟨rfl, settings.exists_run_of_denotes scope h hprogram machine,
    (h.belongs machine).equals_self⟩

/-- The least number that can be written down, and a hash with keys of two types. -/
def nestedData : Value :=
  .array [.integer (-0x7fffffffffffffff),
    .hash [(.integer 1, .array []), (.boolean true, .integer (-1))]]

theorem data_readBack_nested :
    (∀ most ∈ Numeral.usualLimit, 19 ≤ most) ∧ nestedData.IsData ∧
      nestedData.inspect = "[-9223372036854775807, \x7b1: [], true: -1\x7d]" ∧
      (Parse.ofSource nestedData.inspect).errors = [] ∧
      ∃ final, run {} globalScope (Parse.ofSource nestedData.inspect).program .initial =
        .ok nestedData final := by
  have hlimit : ∀ most ∈ Numeral.usualLimit, 19 ≤ most := by
    rintro most ⟨⟩
    decide
  have hkeys : ∀ entry ∈ [(HashKey.integer 1, Value.array []), (.boolean true, .integer (-1))],
      entry.1.toValue.IsData :=
    List.forall_mem_cons.2 ⟨.integer (by decide) (by decide),
      List.forall_mem_singleton.2 (.boolean true)⟩
  have hvalues : ∀ entry ∈ [(HashKey.integer 1, Value.array []), (.boolean true, .integer (-1))],
      entry.2.IsData :=
    List.forall_mem_cons.2 ⟨.array (List.forall_mem_nil _),
      List.forall_mem_singleton.2 (.integer (by decide) (by decide))⟩
  have hdata : nestedData.IsData :=
    .array (List.forall_mem_cons.2 ⟨.integer (by decide) (by decide),
      List.forall_mem_singleton.2 (.hash (by decide) hkeys hvalues)⟩)
  obtain ⟨herrors, hrun, -⟩ := data_readBack {} hlimit hdata globalScope .initial
  exact ⟨hlimit, hdata, by decide +kernel, herrors, hrun⟩

end Settings

end MonkeyLanguage
