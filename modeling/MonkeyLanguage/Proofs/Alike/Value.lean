-- SUMMARY: Correspondences between the data of two runs, and values that are alike.
import Mathlib.Data.List.Forall2
import MonkeyLanguage.Proofs.Run.Clean

/-!
# Values that are alike

Two runs can do the same although not all of their data is the same. What may differ depends on
what the runs are compared for, and a correspondence says it: which code stands for which, which
names and which scopes count, and how the consoles and the logs of the two go together. Values are
alike if they are the same up to such differences. Operators, look-ups and built-in functions cannot
tell values apart that are alike.
-/

namespace MonkeyLanguage

/-- Two nodes are of one kind, with the same data but for their tokens, and their children
correspond. All names in them count. -/
inductive Node.Match (nodes : Node → Node → Prop) (names : String → Bool) : Node → Node → Prop where
  | program {token token' : Token} {statements statements' : List Node} :
      List.Forall₂ nodes statements statements' →
      Match nodes names (.program token statements) (.program token' statements')
  | letStatement {token token' : Token} {name name' value value' : Node} :
      nodes name name' → nodes value value' →
      Match nodes names (.letStatement token name value) (.letStatement token' name' value')
  | returnStatement {token token' : Token} {value value' : Node} :
      nodes value value' →
      Match nodes names (.returnStatement token value) (.returnStatement token' value')
  | expressionStatement {token token' : Token} {value value' : Node} :
      nodes value value' →
      Match nodes names (.expressionStatement token value) (.expressionStatement token' value')
  | block {token token' : Token} {statements statements' : List Node} :
      List.Forall₂ nodes statements statements' →
      Match nodes names (.block token statements) (.block token' statements')
  | identifier {token token' : Token} {name : String} :
      names name = true → Match nodes names (.identifier token name) (.identifier token' name)
  | integer {token token' : Token} (value : Int) :
      Match nodes names (.integer token value) (.integer token' value)
  | string {token token' : Token} (text : String) :
      Match nodes names (.string token text) (.string token' text)
  | boolean {token token' : Token} (value : Bool) :
      Match nodes names (.boolean token value) (.boolean token' value)
  | prefixed {token token' : Token} {operator : String} {right right' : Node} :
      nodes right right' →
      Match nodes names (.prefixed token operator right) (.prefixed token' operator right')
  | binary {token token' : Token} {operator : String} {left left' right right' : Node} :
      nodes left left' → nodes right right' →
      Match nodes names (.binary token operator left right) (.binary token' operator left' right')
  | conditional {token token' : Token}
      {condition condition' consequence consequence' alternative alternative' : Node} :
      nodes condition condition' → nodes consequence consequence' →
      nodes alternative alternative' →
      Match nodes names (.conditional token condition consequence alternative)
        (.conditional token' condition' consequence' alternative')
  | function {token token' : Token} {parameters parameters' : List Node} {body body' : Node} :
      List.Forall₂ nodes parameters parameters' → nodes body body' →
      Match nodes names (.function token parameters body) (.function token' parameters' body')
  | call {token token' : Token} {callee callee' : Node} {arguments arguments' : List Node} :
      nodes callee callee' → List.Forall₂ nodes arguments arguments' →
      Match nodes names (.call token callee arguments) (.call token' callee' arguments')
  | array {token token' : Token} {elements elements' : List Node} :
      List.Forall₂ nodes elements elements' →
      Match nodes names (.array token elements) (.array token' elements')
  | hash {token token' : Token} {pairs pairs' : List (Node × Node)} :
      List.Forall₂ (fun pair pair' => nodes pair.1 pair'.1 ∧ nodes pair.2 pair'.2) pairs pairs' →
      Match nodes names (.hash token pairs) (.hash token' pairs')
  | index {token token' : Token} {target target' key key' : Node} :
      nodes target target' → nodes key key' →
      Match nodes names (.index token target key) (.index token' target' key')
  | missing : Match nodes names .missing .missing
  | foreign : Match nodes names .foreign .foreign

/-- An event as it goes to a log, if the level asks for it. -/
def TraceLog.recordAt (level : Int) (event : TraceEvent) (log : TraceLog) : TraceLog :=
  if event.level ≤ level then log.record event else log

/-- What corresponds to what in two runs on the same host, each with a level of the trace of its
own. Code that corresponds matches and prints alike, texts go to both consoles, and events that
print alike go to both logs. -/
structure Correspondence where
  nodes : Node → Node → Prop
  /-- The names that count: bindings of others are not compared. -/
  names : String → Bool
  /-- The scopes that count. They have the same numbers in both runs. -/
  scopes : ScopeId → Prop
  identities : Nat → Nat → Prop
  consoles : Console → Console → Prop
  logs : TraceLog → TraceLog → Prop
  host : Host
  /-- The level of the trace in the second run. -/
  level' : Int
  matches_of_nodes : ∀ {node node'}, nodes node node' → node.Match nodes names node'
  render_of_nodes : ∀ {node node'}, nodes node node' → node.render = node'.render
  write : ∀ {console console'} text, consoles console console' →
    consoles (console.write text) (console'.write text)
  record : ∀ {log log'} {event event' : TraceEvent}, event.level = event'.level →
    event.line = event'.line → logs log log' →
    logs (log.recordAt host.traceLevel event) (log'.recordAt level' event')

/-- What the second run finds around it. -/
def Correspondence.host' (c : Correspondence) : Host :=
  { c.host with traceLevel := c.level' }

/-- Two values are the same but for code, scopes and identities of functions, which correspond. -/
inductive Value.Alike (c : Correspondence) : Value → Value → Prop where
  | integer (value : Int) : Alike c (.integer value) (.integer value)
  | string (text : String) : Alike c (.string text) (.string text)
  | boolean (value : Bool) : Alike c (.boolean value) (.boolean value)
  | null : Alike c .null .null
  | returned {value value' : Value} :
      Alike c value value' → Alike c (.returned value) (.returned value')
  | error (cause : RuntimeError) : Alike c (.error cause) (.error cause)
  | builtin (function : Builtin) : Alike c (.builtin function) (.builtin function)
  | closure {identity identity' : Nat} {parameters parameters' : List Node} {body body' : Node}
      {scope : ScopeId} :
      c.identities identity identity' → List.Forall₂ c.nodes parameters parameters' →
      c.nodes body body' → c.scopes scope →
      Alike c (.closure identity parameters body scope) (.closure identity' parameters' body' scope)
  | array {elements elements' : List Value} :
      elements.length = elements'.length →
      (∀ pair ∈ elements.zip elements', Alike c pair.1 pair.2) →
      Alike c (.array elements) (.array elements')
  | hash {entries entries' : List (HashKey × Value)} :
      Table.keys entries = Table.keys entries' →
      (∀ pair ∈ entries.zip entries', Alike c pair.1.2 pair.2.2) →
      Alike c (.hash entries) (.hash entries')

/-! ## Lists and tables -/

theorem map_eq_of_forall₂ {α β : Type} {related : α → α → Prop} {f : α → β} {items items' : List α}
    (h : List.Forall₂ related items items') (hf : ∀ a a', related a a' → f a = f a') :
    items.map f = items'.map f := by
  induction h with
  | nil => rfl
  | cons hitem _ ih => rw [List.map_cons, List.map_cons, hf _ _ hitem, ih]

/-- Tables with the same keys, in the same order, whose values are related. -/
def Table.Alike {κ ν : Type} (related : ν → ν → Prop) : List (κ × ν) → List (κ × ν) → Prop :=
  List.Forall₂ fun entry entry' => entry.1 = entry'.1 ∧ related entry.2 entry'.2

namespace Table

variable {κ ν : Type} {related : ν → ν → Prop} {table table' : List (κ × ν)}

theorem alike_iff_zip :
    Alike related table table' ↔
      keys table = keys table' ∧ ∀ pair ∈ table.zip table', related pair.1.2 pair.2.2 := by
  induction table generalizing table' with
  | nil => cases table' <;> simp [Alike, keys]
  | cons entry rest ih =>
      cases table' with
      | nil => simp [Alike, keys]
      | cons entry' rest' =>
          have hrest := @ih rest'
          simp only [Alike] at hrest
          simp only [Alike, List.forall₂_cons, hrest, keys, List.map_cons, List.cons.injEq,
            List.zip_cons_cons, List.forall_mem_cons]
          tauto

variable [DecidableEq κ]

theorem Alike.insert {value value' : ν} (h : Alike related table table') (key : κ)
    (hvalue : related value value') :
    Alike related (insert key value table) (insert key value' table') := by
  induction h with
  | nil => exact .cons ⟨rfl, hvalue⟩ .nil
  | @cons entry entry' _ _ hentry hrest ih =>
      rw [Table.insert, Table.insert, ← hentry.1]
      split
      · exact .cons ⟨rfl, hvalue⟩ hrest
      · exact .cons hentry ih

theorem Alike.find? (h : Alike related table table') (key : κ) :
    Option.Rel related (find? key table) (find? key table') := by
  induction h with
  | nil => exact .none
  | @cons entry entry' _ _ hentry hrest ih =>
      rw [Table.find?, Table.find?, ← hentry.1]
      split
      · exact .some hentry.2
      · exact ih

end Table

namespace Value

variable {c : Correspondence} {value value' : Value}

/-! ## What alike values have in common -/

theorem alike_array_iff {elements elements' : List Value} :
    (array elements).Alike c (array elements') ↔ List.Forall₂ (Alike c) elements elements' := by
  rw [List.forall₂_iff_zip]
  refine ⟨fun h => ?_, fun ⟨hlength, hzip⟩ => .array hlength fun pair hpair => hzip hpair⟩
  cases h with
  | array hlength hzip => exact ⟨hlength, fun hpair => hzip _ hpair⟩

theorem alike_hash_iff {entries entries' : List (HashKey × Value)} :
    (hash entries).Alike c (hash entries') ↔ Table.Alike (Alike c) entries entries' := by
  rw [Table.alike_iff_zip]
  refine ⟨fun h => ?_, fun ⟨hkeys, hzip⟩ => .hash hkeys hzip⟩
  cases h with
  | hash hkeys hzip => exact ⟨hkeys, hzip⟩

/-- Data without functions and signals, and errors, are only what they are. -/
theorem alike_of_computed (h : value.Computed False fun _ _ => False) : value.Alike c value := by
  rcases h with herror | hclean
  · cases value with
    | error cause => exact .error cause
    | _ => cases herror
  · induction hclean with
    | returned hreturns => exact hreturns.elim
    | closure hcode => exact hcode.elim
    | array _ ih =>
        exact alike_array_iff.2 (List.forall₂_same.2 ih)
    | hash _ ih =>
        exact alike_hash_iff.2 (List.forall₂_same.2 fun entry hentry => ⟨rfl, ih entry hentry⟩)
    | _ => constructor

namespace Alike

variable (h : value.Alike c value')

include h

theorem type_eq : value.type = value'.type := by
  cases h <;> rfl

theorem isError_eq : value.isError = value'.isError := by
  cases h <;> rfl

theorem isSignal_eq : value.isSignal = value'.isSignal := by
  cases h <;> rfl

theorem isTruthy_eq : value.isTruthy = value'.isTruthy := by
  cases h <;> rfl

theorem hashKey?_eq : value.hashKey? = value'.hashKey? := by
  cases h <;> rfl

theorem received : value.received.Alike c value'.received := by
  cases h with
  | returned hvalue => exact hvalue
  | closure hidentity hparameters hbody hscope =>
      exact .closure hidentity hparameters hbody hscope
  | array hlength hzip => exact .array hlength hzip
  | hash hkeys hzip => exact .hash hkeys hzip
  | _ => constructor

end Alike

/-! ## Printing -/

theorem inspectAll_eq_map (values : List Value) : inspectAll values = values.map inspect := by
  induction values with
  | nil => rfl
  | cons value rest ih => rw [inspectAll, ih, List.map_cons]

theorem inspectEntries_eq_map (entries : List (HashKey × Value)) :
    inspectEntries entries =
      entries.map fun entry => entry.1.inspect ++ ": " ++ entry.2.inspect := by
  induction entries with
  | nil => rfl
  | cons entry rest ih =>
      obtain ⟨key, value⟩ := entry
      rw [inspectEntries, ih, List.map_cons]

end Value

namespace Correspondence

variable (c : Correspondence) {node node' : Node} {nodes nodes' : List Node}

theorem renderAll_eq (h : List.Forall₂ c.nodes nodes nodes') :
    nodes.map Node.render = nodes'.map Node.render :=
  map_eq_of_forall₂ h fun _ _ => c.render_of_nodes

theorem forall₂_statements (h : c.nodes node node') :
    List.Forall₂ c.nodes node.statements node'.statements := by
  cases c.matches_of_nodes h with
  | program hstatements => exact hstatements
  | block hstatements => exact hstatements
  | _ => exact .nil

end Correspondence

namespace Value

/-- Values that are alike print alike. -/
theorem Alike.inspect_eq {c : Correspondence} {value value' : Value} (h : value.Alike c value') :
    value.inspect = value'.inspect := by
  induction h with
  | returned _ ih => exact ih
  | closure _ hparameters hbody _ =>
      rw [inspect, inspect, inspectFunction, inspectFunction, c.renderAll_eq hparameters,
        c.renderAll_eq (c.forall₂_statements hbody)]
  | array hlength _ ih =>
      have helements := List.forall₂_iff_zip.2 ⟨hlength, fun hpair => ih _ hpair⟩
      rw [inspect, inspect, inspectAll_eq_map, inspectAll_eq_map,
        map_eq_of_forall₂ helements fun _ _ heq => heq]
  | hash hkeys _ ih =>
      have hentries : Table.Alike (fun value value' => inspect value = inspect value') _ _ :=
        Table.alike_iff_zip.2 ⟨hkeys, ih⟩
      rw [inspect, inspect, inspectEntries_eq_map, inspectEntries_eq_map,
        map_eq_of_forall₂ hentries fun entry entry' heq => by rw [heq.1, heq.2]]
  | _ => rfl

/-! ## Operators and look-ups -/

theorem prefixed_of_hashKey?_eq_none {right : Value} (h : right.hashKey? = none)
    (operator : String) :
    right.prefixed operator =
      if operator = "!" then .boolean (!right.isTruthy)
      else .error (.unknownPrefixed operator right.type) := by
  unfold Value.prefixed
  split
  case h_1 => rfl
  case h_2 => cases h
  case h_3 hnot _ => rw [if_neg hnot]

theorem binary_of_hashKey?_eq_none {left right : Value}
    (h : left.hashKey? = none ∨ right.hashKey? = none) (operator : String) (limit : Nat) :
    left.binary operator right limit =
      .error (if left.type = right.type then .unknownBinary left.type operator right.type
        else .typeMismatch left.type operator right.type) := by
  unfold Value.binary
  split
  case h_4 =>
    split
    · rcases h with h | h <;> cases h
    · split <;> rfl
  all_goals rcases h with h | h <;> cases h

theorem eq_toValue_of_hashKey? {value : Value} {key : HashKey} (h : value.hashKey? = some key) :
    value = key.toValue := by
  cases value <;> cases h <;> rfl

/-- A value that can be a key is known from its key. -/
theorem eq_of_hashKey?_eq_some {value value' : Value} {key : HashKey}
    (h : value.hashKey? = some key) (h' : value'.hashKey? = some key) : value = value' :=
  (eq_toValue_of_hashKey? h).trans (eq_toValue_of_hashKey? h').symm

section

variable {value value' : Value} (htype : value.type = value'.type)
  (hkey : value.hashKey? = value'.hashKey?)

include htype hkey

/-- Of its operand, an operator uses the key, the type and the truth, and nothing else. -/
theorem prefixed_congr (htruth : value.isTruthy = value'.isTruthy) (operator : String) :
    value.prefixed operator = value'.prefixed operator := by
  cases hvalue : value.hashKey? with
  | none =>
      rw [prefixed_of_hashKey?_eq_none hvalue, prefixed_of_hashKey?_eq_none (hkey ▸ hvalue),
        htype, htruth]
  | some key => rw [eq_of_hashKey?_eq_some hvalue (hkey ▸ hvalue)]

/-- Of its two operands, an operator uses the keys and the types, and nothing else. -/
theorem binary_congr {other other' : Value} (htype' : other.type = other'.type)
    (hkey' : other.hashKey? = other'.hashKey?) (operator : String) (limit : Nat) :
    value.binary operator other limit = value'.binary operator other' limit := by
  by_cases hnone : value.hashKey? = none ∨ other.hashKey? = none
  · have hnone' : value'.hashKey? = none ∨ other'.hashKey? = none := by rwa [← hkey, ← hkey']
    rw [binary_of_hashKey?_eq_none hnone, binary_of_hashKey?_eq_none hnone', htype, htype']
  · rw [not_or] at hnone
    obtain ⟨key, hvalue⟩ := Option.ne_none_iff_exists'.1 hnone.1
    obtain ⟨key', hother⟩ := Option.ne_none_iff_exists'.1 hnone.2
    rw [eq_of_hashKey?_eq_some hvalue (hkey ▸ hvalue),
      eq_of_hashKey?_eq_some hother (hkey' ▸ hother)]

end

theorem getElem?_rel_of_forall₂ {α : Type} {related : α → α → Prop} {items items' : List α}
    (h : List.Forall₂ related items items') (place : Nat) :
    Option.Rel related items[place]? items'[place]? := by
  induction h generalizing place with
  | nil => exact .none
  | cons hitem _ ih =>
      cases place with
      | zero => exact .some hitem
      | succ place => exact ih place

theorem element?_rel {related : Value → Value → Prop} {elements elements' : List Value}
    (h : List.Forall₂ related elements elements') (place : Int) :
    Option.Rel related (element? elements place) (element? elements' place) := by
  rw [element?, element?]
  split
  · exact .none
  · exact getElem?_rel_of_forall₂ h _

theorem getD_of_rel {α : Type} {related : α → α → Prop} {found found' : Option α} {other : α}
    (h : Option.Rel related found found') (hother : related other other) :
    related (found.getD other) (found'.getD other) := by
  cases h with
  | some hfound => exact hfound
  | none => exact hother

namespace Alike

variable {c : Correspondence} {value value' : Value} (h : value.Alike c value')

include h

theorem prefixed (operator : String) :
    (value.prefixed operator).Alike c (value'.prefixed operator) := by
  rw [prefixed_congr h.type_eq h.hashKey?_eq h.isTruthy_eq]
  exact alike_of_computed (computed_prefixed ..)

theorem binary {other other' : Value} (hother : other.Alike c other') (operator : String)
    (limit : Nat) :
    (value.binary operator other limit).Alike c (value'.binary operator other' limit) := by
  rw [binary_congr h.type_eq h.hashKey?_eq hother.type_eq hother.hashKey?_eq]
  exact alike_of_computed (computed_binary ..)

theorem lookUp {key key' : Value} (hkey : key.Alike c key') :
    (value.lookUp key).Alike c (value'.lookUp key') := by
  cases h with
  | array hlength hzip =>
      cases hkey with
      | integer place =>
          have helements := List.forall₂_iff_zip.2 ⟨hlength, fun hpair => hzip _ hpair⟩
          exact getD_of_rel (element?_rel helements place) .null
      | _ => exact .error _
  | hash hkeys hzip =>
      rw [Value.lookUp, Value.lookUp, ← hkey.hashKey?_eq, ← hkey.type_eq]
      cases key.hashKey? with
      | none => exact .error _
      | some hashKey =>
          exact getD_of_rel ((Table.alike_iff_zip.2 ⟨hkeys, hzip⟩).find? hashKey) .null
  | _ => exact .error _

end Alike

/-! ## Built-in functions -/

theorem runLength_cons_cons (first second : Value) (rest : List Value) :
    Builtin.runLength (first :: second :: rest) =
      .error (.wrongArgumentCount (first :: second :: rest).length 1) := by
  cases first <;> rfl

section

variable {c : Correspondence} {arguments arguments' : List Value} {console console' : Console}
  (h : List.Forall₂ (Alike c) arguments arguments')

include h

theorem alike_runLength : (Builtin.runLength arguments).Alike c (Builtin.runLength arguments') := by
  have hcount := h.length_eq
  cases h with
  | nil => exact .error _
  | cons hfirst hrest =>
      cases hrest with
      | nil =>
          cases hfirst with
          | string text => exact .integer _
          | array hlength _ =>
              rw [Builtin.runLength, Builtin.runLength, hlength]
              exact .integer _
          | _ => exact .error _
      | cons =>
          rw [runLength_cons_cons, runLength_cons_cons, hcount]
          exact .error _

/-- A built-in function answers alike, and writes the same. -/
theorem alike_runBuiltin (builtin : Builtin) (hconsole : c.consoles console console') :
    (builtin.run arguments console).1.Alike c (builtin.run arguments' console').1 ∧
      c.consoles (builtin.run arguments console).2 (builtin.run arguments' console').2 := by
  have htexts := map_eq_of_forall₂ h fun _ _ => Alike.inspect_eq
  cases builtin with
  | length => exact ⟨alike_runLength h, hconsole⟩
  | printLine =>
      cases h with
      | nil => exact ⟨.error _, hconsole⟩
      | @cons first first' rest rest' _ _ =>
          refine ⟨.null, ?_⟩
          change c.consoles (console.printLine ((first :: rest).map inspect))
            (console'.printLine ((first' :: rest').map inspect))
          rw [htexts]
          exact c.write _ hconsole
  | printFormatted =>
      cases h with
      | nil => exact ⟨.error _, hconsole⟩
      | @cons format format' rest rest' _ hrest =>
          obtain ⟨hformat, htexts⟩ := List.cons.inj htexts
          simp only [Builtin.run, Builtin.runPrintFormatted, Console.printFormatted?, hformat,
            htexts, hrest.length_eq]
          cases Format.expand? format'.inspect (rest'.map inspect) with
          | none => exact ⟨.error _, hconsole⟩
          | some text => exact ⟨.null, c.write text hconsole⟩

end

end Value

end MonkeyLanguage
