-- SUMMARY: All integers of a run are numbers of 64 bits.
import MonkeyLanguage.Proofs.Canonical.Reparse
import MonkeyLanguage.Proofs.Run.Standard

/-!
# Integers of 64 bits

Numbers are unbounded where a run computes, so each place that makes one has to see to it that a
signed word of 64 bits can hold it. Numerals are checked when they are read, and arithmetic wraps
around. Only `len` takes a number as it comes: the length of a string or of an array.
-/

namespace MonkeyLanguage

/-- All numerals in the code that may be evaluated are in range. -/
abbrev Node.InRange : Node → Prop :=
  Node.Throughout fun node => ∀ token n, node = .integer token n → Integer.InRange n

/-- A key is in range unless it is an integer that is not. -/
def HashKey.InRange : HashKey → Prop
  | integer n => Integer.InRange n
  | _ => True

/-- All integers inside a value are in range, those in the code of functions too. -/
inductive Value.InRange : Value → Prop where
  | integer {n : Int} : Integer.InRange n → InRange (.integer n)
  | string (text : String) : InRange (.string text)
  | boolean (value : Bool) : InRange (.boolean value)
  | null : InRange .null
  | returned {value : Value} : InRange value → InRange (.returned value)
  | error (cause : RuntimeError) : InRange (.error cause)
  | builtin (function : Builtin) : InRange (.builtin function)
  | closure {identity : Nat} {parameters : List Node} {body : Node} {scope : ScopeId} :
      body.InRange → InRange (.closure identity parameters body scope)
  | array {elements : List Value} :
      (∀ element ∈ elements, InRange element) → InRange (.array elements)
  | hash {entries : List (HashKey × Value)} :
      (∀ entry ∈ entries, entry.1.InRange) → (∀ entry ∈ entries, InRange entry.2) →
      InRange (.hash entries)

/-- If this is a call of `len` with a string or an array, a signed word can hold its length. -/
def Builtin.measurable : Builtin → List Value → Bool
  | length, [.string text] => decide (text.length < 0x8000000000000000)
  | length, [.array elements] => decide (elements.length < 0x8000000000000000)
  | _, _ => true

/-- If `len` is being called, what it measures is short enough. -/
def Control.measurable : Control → Bool
  | call (.builtin function) arguments => function.measurable arguments
  | _ => true

/-! ## What is made of values in range -/

namespace Value

theorem InRange.received {value : Value} (h : value.InRange) : value.received.InRange := by
  cases h with
  | returned hvalue => exact hvalue
  | integer hn => exact .integer hn
  | closure hbody => exact .closure hbody
  | array helements => exact .array helements
  | hash hkeys hvalues => exact .hash hkeys hvalues
  | _ => constructor

theorem InRange.hashKey {value : Value} (h : value.InRange) {key : HashKey}
    (hkey : value.hashKey? = some key) : key.InRange := by
  cases h with
  | integer hn =>
      cases hkey
      exact hn
  | string =>
      cases hkey
      trivial
  | boolean =>
      cases hkey
      trivial
  | _ => cases hkey

theorem inRange_prefixed (operator : String) (right : Value) :
    (right.prefixed operator).InRange := by
  unfold prefixed
  split
  · exact .boolean _
  · exact .integer (Integer.inRange_wrap _)
  · exact .error _

theorem inRange_integerBinary (operator : String) (a b : Int) :
    (integerBinary operator a b).InRange := by
  unfold integerBinary
  split
  case h_4 =>
    split
    · exact .error _
    · exact .integer (Integer.inRange_wrap _)
  case h_9 => exact .error _
  all_goals first | exact .integer (Integer.inRange_wrap _) | exact .boolean _

theorem inRange_booleanBinary (operator : String) (a b : Bool) :
    (booleanBinary operator a b).InRange := by
  unfold booleanBinary
  split
  case h_5 => exact .error _
  all_goals exact .boolean _

theorem inRange_stringBinary (operator : String) (a b : String) :
    (stringBinary operator a b).InRange := by
  unfold stringBinary
  split
  case h_1 => exact .string _
  case h_4 => exact .error _
  all_goals exact .boolean _

theorem inRange_repetition (limit : Nat) (text : String) (count : Int) :
    (repetition limit text count).InRange := by
  unfold repetition
  split
  · exact .error _
  · split <;> exact .string _

/-- Operators between values wrap what they compute, so what the operands are does not matter. -/
theorem inRange_binary (operator : String) (left right : Value) (limit : Nat) :
    (left.binary operator right limit).InRange := by
  unfold binary
  split
  · exact inRange_integerBinary ..
  · exact inRange_booleanBinary ..
  · exact inRange_stringBinary ..
  · split
    · exact inRange_repetition ..
    · split <;> exact .error _

theorem InRange.lookUp {target : Value} (h : target.InRange) (key : Value) :
    (target.lookUp key).InRange := by
  apply Value.lookUp_of_contents .null .error
  intro value hvalue
  cases h with
  | array helements => exact helements value hvalue
  | hash _ hvalues => exact List.forall_mem_map.2 hvalues value hvalue
  | _ => cases hvalue

/-- Of the built-in functions only `len` makes numbers. -/
theorem inRange_runBuiltin {builtin : Builtin} {arguments : List Value}
    (h : builtin.measurable arguments = true) (console : Console) :
    (builtin.run arguments console).1.InRange := by
  cases builtin with
  | length =>
      simp only [Builtin.run, Builtin.runLength]
      split
      · have hlength := of_decide_eq_true h
        exact .integer ⟨by omega, by omega⟩
      · have hlength := of_decide_eq_true h
        exact .integer ⟨by omega, by omega⟩
      · exact .error _
      · exact .error _
  | printFormatted =>
      simp only [Builtin.run]
      unfold Builtin.runPrintFormatted
      split
      · exact .error _
      · split
        · exact .null
        · exact .error _
  | printLine =>
      simp only [Builtin.run]
      unfold Builtin.runPrintLine
      split
      · exact .error _
      · exact .null

end Value

theorem Table.keys_insert {κ ν : Type} [DecidableEq κ] {good : κ → Prop} {key : κ} {value : ν}
    {table : List (κ × ν)} (h : ∀ entry ∈ table, good entry.1) (hkey : good key) :
    ∀ entry ∈ insert key value table, good entry.1 := by
  induction table with
  | nil => exact List.forall_mem_singleton.2 hkey
  | cons first rest ih =>
      obtain ⟨hfirst, hrest⟩ := List.forall_mem_cons.1 h
      rw [insert]
      split
      · exact List.forall_mem_cons.2 ⟨hkey, hrest⟩
      · exact List.forall_mem_cons.2 ⟨hfirst, ih hrest⟩

/-- To be in range is a standard for values, as long as `len` measures nothing that is too
long. -/
def Standard.inRange : Standard where
  value := Value.InRange
  key := HashKey.InRange
  table entries := (∀ entry ∈ entries, entry.1.InRange) ∧ ∀ entry ∈ entries, entry.2.InRange
  code := Node.InRange
  permits function arguments := function.measurable arguments = true
  children := Node.Throughout.child
  integer h := .integer (h.self _ _ rfl)
  string := .string
  boolean := .boolean
  null := .null
  error := .error
  builtin := .builtin
  closure h _ _ := .closure h
  body h := by
    cases h with
    | closure hbody => exact hbody
  returned := .returned
  received := Value.InRange.received
  array := .array
  empty := ⟨List.forall_mem_nil _, List.forall_mem_nil _⟩
  insert hentries hkey hvalue :=
    ⟨Table.keys_insert hentries.1 hkey, Table.of_mem_insert hentries.2 hvalue⟩
  hash h := .hash h.1 h.2
  hashKey h := h.hashKey
  prefixed _ operator := Value.inRange_prefixed operator _
  binary _ _ operator limit := Value.inRange_binary operator _ _ limit
  lookUp htarget _ := htarget.lookUp _
  run hmeasurable _ console := Value.inRange_runBuiltin hmeasurable console

theorem Control.measurable_iff {control : Control} :
    control.measurable = true ↔ Standard.inRange.Permits control := by
  cases control with
  | call function arguments =>
      cases function <;> simp [measurable, Standard.Permits, Standard.inRange]
  | _ => simp [measurable, Standard.Permits]

/-! ## Code that was read -/

theorem Numeral.Written.inRange {limit : DigitLimit} {text : String} {value : Int}
    (h : Written limit text value) : Integer.InRange value := by
  have hle := h.value_le
  rw [Parser.largestInteger] at hle
  have hvalue := h.value_eq
  exact ⟨by omega, by omega⟩

/-- What a phrase has of code is in range. -/
def Phrase.InRange : Phrase → Prop
  | expression node => node.InRange
  | pair key value => key.InRange ∧ value.InRange
  | statement node => node.InRange
  | block node => node.InRange
  | _ => True

/-- A node that is no numeral is in range if its children are. -/
theorem Node.InRange.of_children {node : Node} (hnode : ∀ token n, node ≠ .integer token n)
    (hchildren : ∀ child ∈ node.children, child.InRange) : node.InRange :=
  .intro (fun token n h => absurd h (hnode token n)) hchildren

theorem WellFormed.inRange {limit : Numeral.DigitLimit} {phrase : Phrase}
    (h : WellFormed limit phrase) : phrase.InRange := by
  induction h with
  | identifier => exact .of_children (by simp) (List.forall_mem_nil _)
  | integer hwritten =>
      refine .intro (fun token n heq => ?_) (List.forall_mem_nil _)
      cases heq
      exact hwritten.inRange
  | string => exact .of_children (by simp) (List.forall_mem_nil _)
  | boolean => exact .of_children (by simp) (List.forall_mem_nil _)
  | prefixed _ _ ih => exact .of_children (by simp) (List.forall_mem_singleton.2 ih)
  | binary _ _ _ ihLeft ihRight =>
      refine .of_children (by simp) (List.forall_mem_cons.2 ⟨ihLeft, ?_⟩)
      exact List.forall_mem_singleton.2 ihRight
  | conditional _ _ ihCondition ihBlock =>
      refine .of_children (by simp) (List.forall_mem_cons.2 ⟨ihCondition, ?_⟩)
      have hmissing : Node.missing.InRange := .of_children (by simp) (List.forall_mem_nil _)
      exact List.forall_mem_cons.2 ⟨ihBlock, List.forall_mem_singleton.2 hmissing⟩
  | choice _ _ _ ihCondition ihBlock ihOther =>
      refine .of_children (by simp) (List.forall_mem_cons.2 ⟨ihCondition, ?_⟩)
      exact List.forall_mem_cons.2 ⟨ihBlock, List.forall_mem_singleton.2 ihOther⟩
  | function _ _ _ _ ihBody => exact .of_children (by simp) (List.forall_mem_singleton.2 ihBody)
  | call _ _ ihCallee ihArguments =>
      exact .of_children (by simp) (List.forall_mem_cons.2 ⟨ihCallee, ihArguments⟩)
  | array _ ih => exact .of_children (by simp) ih
  | hash _ ih =>
      refine .of_children (by simp) (List.forall_mem_flatMap.2 fun pair hpair => ?_)
      obtain ⟨hkey, hvalue⟩ := ih pair hpair
      exact List.forall_mem_cons.2 ⟨hkey, List.forall_mem_singleton.2 hvalue⟩
  | index _ _ ihTarget ihKey =>
      refine .of_children (by simp) (List.forall_mem_cons.2 ⟨ihTarget, ?_⟩)
      exact List.forall_mem_singleton.2 ihKey
  | parameter => trivial
  | pair _ _ ihKey ihValue => exact ⟨ihKey, ihValue⟩
  | letStatement _ _ _ ih => exact .of_children (by simp) (List.forall_mem_singleton.2 ih)
  | returnStatement _ _ ih => exact .of_children (by simp) (List.forall_mem_singleton.2 ih)
  | expressionStatement _ ih => exact .of_children (by simp) (List.forall_mem_singleton.2 ih)
  | block _ ih => exact .of_children (by simp) ih

/-- All code that is read from a source text is in range, even if there were errors. -/
theorem Parse.inRange_ofSource (source : String) (limit : Numeral.DigitLimit) :
    (Parse.ofSource source limit).program.InRange := by
  have hprogram := Parse.wellFormed_ofSource source limit
  cases hnode : (Parse.ofSource source limit).program with
  | program token statements =>
      rw [hnode] at hprogram
      exact .of_children (by simp) fun statement hstatement =>
        (hprogram statement hstatement).inRange
  | _ =>
      rw [hnode] at hprogram
      exact hprogram.elim

namespace Settings

/-- All integers of a run are numbers of 64 bits: those that it computes, binds, puts into arrays
and hashes, passes to functions and gets back from them. The scopes must have none but such
integers when the run starts, and `len` must not measure what is too long. -/
theorem integers_inRange (settings : Settings) (scope : ScopeId) (source : String)
    (limit : Numeral.DigitLimit) (machine : Machine)
    (hmachine : machine.store.Holds Value.InRange)
    (hlengths : ∀ moment, Moment.Reaches settings.toHost
      (settings.begin scope (Parse.ofSource source limit).program machine) moment →
      moment.control.measurable = true) :
    (∀ moment, Moment.Reaches settings.toHost
      (settings.begin scope (Parse.ofSource source limit).program machine) moment →
      moment.Meets .inRange ∧
        Standard.inRange.Outcome (moment.meaning settings.toHost)) ∧
    Standard.inRange.Outcome
      (settings.run scope (Parse.ofSource source limit).program machine) := by
  have hbegin : (settings.begin scope (Parse.ofSource source limit).program machine).Meets
      .inRange :=
    settings.meets_begin scope _ machine hmachine (Parse.inRange_ofSource source limit)
  have hpermits : ∀ moment, Moment.Reaches settings.toHost
      (settings.begin scope (Parse.ofSource source limit).program machine) moment →
      Standard.inRange.Permits moment.control :=
    fun moment hmoment => Control.measurable_iff.1 (hlengths moment hmoment)
  refine ⟨fun moment hmoment => ?_, settings.outcome_run scope _ machine (hbegin.outcome hpermits)⟩
  have hmeets := hbegin.reaches hpermits hmoment
  exact ⟨hmeets, hmeets.outcome fun later hlater => hpermits later (hmoment.trans hlater)⟩

/-- A program that measures a string and adds its length to the largest number. -/
def addPast : String := "let f = fn(x) \x7b x + 9223372036854775807 \x7d; f(len(\"abc\"))"

theorem integers_inRange_addPast :
    Machine.initial.store.Holds Value.InRange ∧
    (∀ moment, Moment.Reaches {}
      (Settings.begin {} globalScope (Parse.ofSource addPast).program .initial) moment →
      moment.control.measurable = true ∧ moment.Meets .inRange) ∧
    Standard.inRange.Outcome
      (Settings.run {} globalScope (Parse.ofSource addPast).program .initial) := by
  have hcheck : Moment.throughout {} (fun moment => moment.control.measurable) 100
      (Settings.begin {} globalScope (Parse.ofSource addPast).program .initial) = true := by
    decide +kernel
  have hlengths : ∀ moment, Moment.Reaches {}
      (Settings.begin {} globalScope (Parse.ofSource addPast).program .initial) moment →
      moment.control.measurable = true :=
    fun _ hmoment => Moment.of_throughout hcheck hmoment
  have hrun := integers_inRange {} globalScope addPast Numeral.usualLimit .initial
    (holds_initial _) hlengths
  exact ⟨holds_initial _, fun moment hmoment =>
    ⟨hlengths moment hmoment, (hrun.1 moment hmoment).1⟩, hrun.2⟩

end Settings

end MonkeyLanguage
