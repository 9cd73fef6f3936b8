-- SUMMARY: Evaluations and calls do the same under new numbers for scopes and closures.
import MonkeyLanguage.Proofs.Renaming.Machine
import MonkeyLanguage.Proofs.Scoping.Writes

/-!
# Renamed evaluations

On a machine that renames another one, a node comes to the renamed value or to the same fault, and a
machine is left that renames the other one again; so it is with calls of renamed functions. What
was computed before belongs to the machine also later on, because no scope and no closure is ever
taken away. The proof is by recursion on the node, inside an induction on how many function bodies
may run inside each other.
-/

namespace MonkeyLanguage

namespace Eval

variable {α β : Type} {r : Renaming} {start : Machine}

/-- Results that are related on the machines that they are left on, or the same fault, and machines
of which one renames the other. -/
inductive ResultsRenamed (r : Renaming) (related : Machine → α → α → Prop) (start : Machine) :
    EStateM.Result Fault Machine α → EStateM.Result Fault Machine α → Prop where
  | ok {result result' : α} {final final' : Machine} :
      start.Precedes final → final.Renames r final' → related final result result' →
      ResultsRenamed r related start (.ok result final) (.ok result' final')
  | error (fault : Fault) {final final' : Machine} :
      start.Precedes final → final.Renames r final' →
      ResultsRenamed r related start (.error fault final) (.error fault final')

/-- The second computation does the same as the first one, on each machine that renames the machine
that the first one starts on. -/
def Renames (r : Renaming) (related : Machine → α → α → Prop) (start : Machine)
    (computation computation' : Eval α) : Prop :=
  ∀ start', start.Renames r start' →
    ResultsRenamed r related start (computation start) (computation' start')

theorem ResultsRenamed.since {related : Machine → α → α → Prop} {middle : Machine}
    {result result' : EStateM.Result Fault Machine α}
    (h : ResultsRenamed r related middle result result') (hmore : start.Precedes middle) :
    ResultsRenamed r related start result result' := by
  cases h with
  | ok hrest hfinal hrelated => exact .ok (hmore.trans hrest) hfinal hrelated
  | error fault hrest hfinal => exact .error fault (hmore.trans hrest) hfinal

variable {related : Machine → α → α → Prop} {relatedNext : Machine → β → β → Prop}

theorem renames_pure {result result' : α} (h : related start result result') :
    Renames r related start (pure result) (pure result') :=
  fun _ hstart => .ok (.refl start) hstart h

theorem renames_throw (fault : Fault) : Renames r related start (throw fault) (throw fault) :=
  fun _ hstart => .error fault (.refl start) hstart

theorem Renames.bind {computation computation' : Eval α} {next next' : α → Eval β}
    (h : Renames r related start computation computation')
    (hnext : ∀ middle result result', start.Precedes middle → related middle result result' →
      Renames r relatedNext middle (next result) (next' result')) :
    Renames r relatedNext start (computation >>= next) (computation' >>= next') := by
  intro start' hstart
  have hfirst := h start' hstart
  generalize hresult : computation start = result at hfirst
  generalize hresult' : computation' start' = result' at hfirst
  cases hfirst with
  | error fault hmore hmiddle =>
      rw [error_bind hresult, error_bind hresult']
      exact .error fault hmore hmiddle
  | ok hmore hmiddle hrelated =>
      rw [ok_bind hresult, ok_bind hresult']
      exact (hnext _ _ _ hmore hrelated _ hmiddle).since hmore

end Eval

/-- A value that belongs to a machine, and the renamed value. -/
def Renaming.Values (r : Renaming) (machine : Machine) (value value' : Value) : Prop :=
  value.Belongs machine ∧ value' = value.renamed r

/-- A scope of a machine, and its new number. -/
def Renaming.Scopes (r : Renaming) (machine : Machine) (scope scope' : ScopeId) : Prop :=
  scope < machine.store.next ∧ scope' = r.scope scope

/-- What comes out of several nodes: values that belong to a machine, and the renamed values, or the
same error. -/
inductive Renaming.Results (r : Renaming) (machine : Machine) :
    Except RuntimeError (List Value) → Except RuntimeError (List Value) → Prop where
  | ok {values : List Value} :
      (∀ value ∈ values, value.Belongs machine) →
      Results r machine (.ok values) (.ok (values.map (Value.renamed r)))
  | error (cause : RuntimeError) : Results r machine (.error cause) (.error cause)

namespace Eval

variable {r : Renaming} {start : Machine}

/-- The second computation comes to the renamed value of the first. -/
abbrev Repeats (r : Renaming) (start : Machine) (computation computation' : Eval Value) : Prop :=
  Renames r r.Values start computation computation'

theorem repeats_pure {value : Value} (h : value.Belongs start) :
    Repeats r start (pure value) (pure (value.renamed r)) :=
  renames_pure ⟨h, rfl⟩

theorem repeats_scalar {value : Value} (h : value.Scalar) :
    Repeats r start (pure value) (pure value) :=
  renames_pure ⟨h.belongs, h.renamed_eq.symm⟩

theorem Renames.withValue {computation computation' : Eval Value} {next next' : Value → Eval Value}
    (h : Repeats r start computation computation')
    (hnext : ∀ middle value, start.Precedes middle → value.Belongs middle →
      Repeats r middle (next value) (next' (value.renamed r))) :
    Repeats r start (Eval.withValue computation next) (Eval.withValue computation' next') := by
  apply h.bind
  rintro middle value _ hmore ⟨hvalue, rfl⟩
  rw [Value.isError_renamed]
  split
  · exact repeats_pure hvalue
  · exact hnext middle value hmore hvalue

theorem renames_trace (level : Int) (event event' : TraceEvent) :
    Renames r (fun _ _ _ => True) start (Eval.trace level event) (Eval.trace level event') :=
  fun _ hstart => .ok (Machine.precedes_trace level event) (hstart.trace level event event') trivial

theorem repeats_makeClosure (parameters : List Node) (body : Node) {scope : ScopeId}
    (hscope : scope < start.store.next) :
    Repeats r start (Eval.makeClosure parameters body scope)
      (Eval.makeClosure parameters body (r.scope scope)) := by
  intro start' hstart
  have hidentity : r.closure start.closures = start'.closures := hstart.closures 0
  refine .ok ⟨Nat.le_refl _, Nat.le_succ _⟩ ⟨hstart.consistent.makeClosure, hstart.store, ?_,
    hstart.console⟩ ⟨.closure (Nat.lt_succ_self _) hscope, ?_⟩
  · intro made
    change r.closure (start.closures + 1 + made) = start'.closures + 1 + made
    rw [Nat.add_assoc, Nat.add_assoc, hstart.closures]
  · rw [Value.renamed, hidentity]

theorem repeats_callBuiltin (host : Host) (builtin : Builtin) (arguments : List Value) :
    Repeats r start (Eval.callBuiltin host builtin arguments)
      (Eval.callBuiltin host builtin (arguments.map (Value.renamed r))) := by
  apply (renames_trace host.traceLevel _ _).bind
  intro middle _ _ _ _ middle' hmiddle
  have hscalar := Value.scalar_runBuiltin builtin arguments middle.console
  have hrun : builtin.run (arguments.map (Value.renamed r)) middle'.console =
      builtin.run arguments middle.console := by rw [hmiddle.console, Value.run_renamed]
  have hvalue : (builtin.run (arguments.map (Value.renamed r)) middle'.console).1 =
      (builtin.run arguments middle.console).1.renamed r := by rw [hrun, hscalar.renamed_eq]
  exact .ok (.of_eq rfl rfl) ⟨hmiddle.consistent.of_store_eq rfl rfl, hmiddle.store,
    hmiddle.closures, congrArg Prod.snd hrun⟩ ⟨hscalar.belongs, hvalue⟩

/-! ## Binding names -/

theorem repeats_bindNode (host : Host) (scope : ScopeId) (name : Node) {value : Value}
    (hvalue : value.Belongs start) :
    Repeats r start (Eval.bindNode host scope name value)
      (Eval.bindNode host (r.scope scope) name (value.renamed r)) := by
  intro start' hstart
  rw [Moment.bindNode_eq, Moment.bindNode_eq]
  cases name.boundName with
  | error fault => exact .error fault (.refl start) hstart
  | ok text =>
      let traced := start.trace host.traceLevel (.bound text value)
      have htraced := hstart.trace host.traceLevel (.bound text value)
        (.bound text (value.renamed r))
      have hmore : start.Precedes traced := Machine.precedes_trace host.traceLevel _
      have hbelongs := hvalue.mono hmore
      have hbound := Machine.precedes_bind traced scope text value
      exact .ok (hmore.trans hbound) (htraced.bind scope text hbelongs) ⟨hbelongs.mono hbound, rfl⟩

theorem renames_enter (host : Host) (parameters : List Node) {scope : ScopeId}
    (hscope : scope < start.store.next) {arguments : List Value}
    (harguments : ∀ argument ∈ arguments, argument.Belongs start) :
    Renames r r.Scopes start (Eval.enter host parameters scope arguments)
      (Eval.enter host parameters (r.scope scope) (arguments.map (Value.renamed r))) := by
  intro start' hstart
  rw [Moment.enter_eq, Moment.enter_eq]
  cases Node.parameterNames parameters with
  | error fault => exact .error fault (.refl start) hstart
  | ok names =>
      let event := TraceEvent.called names arguments.length
      let traced := start.trace host.traceLevel event
      let opened := { traced with store := traced.store.addScope (some scope) }
      have htraced := hstart.trace host.traceLevel event
        (.called names (arguments.map (Value.renamed r)).length)
      have hinner : r.scope traced.store.next = _ := htraced.store.next 0
      have hmore : start.Precedes traced := Machine.precedes_trace host.traceLevel event
      have hopened : start.Precedes opened := hmore.trans (traced.precedes_addScope (some scope))
      have hscopes : ∀ outer ∈ some scope, outer < traced.store.next := by
        rintro _ ⟨⟩
        exact Nat.lt_of_lt_of_le hscope hmore.scopes
      have hentries : ∀ entry ∈ names.zip arguments, entry.2.Belongs opened := fun entry hentry =>
        (harguments entry.2 (List.of_mem_zip hentry).2).mono hopened
      have hfinal := (htraced.addScope hscopes).bindAll traced.store.next hentries
      rw [hinner, Table.mapValues_zip] at hfinal
      have hbound := opened.precedes_bindAll traced.store.next (names.zip arguments)
      refine .ok (hopened.trans hbound) hfinal ⟨?_, hinner.symm⟩
      exact Nat.lt_of_lt_of_le (Nat.lt_succ_self _)
        (Nat.le_trans (Nat.le_of_eq (Store.next_addScope _).symm) hbound.scopes)

end Eval

/-! ## Nodes -/

/-- Calls do the same under new numbers. -/
def CallsRepeat (r : Renaming) (call : Call) : Prop :=
  ∀ start function arguments, function.Belongs start →
    (∀ argument ∈ arguments, argument.Belongs start) →
    Eval.Repeats r start (call function arguments)
      (call (function.renamed r) (arguments.map (Value.renamed r)))

open Eval

variable {r : Renaming} {start : Machine}

/-- What is made of the values of several nodes. -/
theorem repeats_useAll {computation computation' : Eval (Except RuntimeError (List Value))}
    {next next' : List Value → Eval Value}
    (h : Eval.Renames r r.Results start computation computation')
    (hnext : ∀ middle values, start.Precedes middle → (∀ value ∈ values, value.Belongs middle) →
      Repeats r middle (next values) (next' (values.map (Value.renamed r)))) :
    Repeats r start
      (do
        match ← computation with
        | .ok values => next values
        | .error cause => pure (.error cause))
      (do
        match ← computation' with
        | .ok values => next' values
        | .error cause => pure (.error cause)) := by
  apply h.bind
  intro middle result result' hmore hresult
  cases hresult with
  | ok hvalues => exact hnext middle _ hmore hvalues
  | error cause => exact repeats_pure (.error cause)

/-- The value of a node, in front of those of the nodes after it. -/
theorem renames_cons {value : Value} {rest rest' : Eval (Except RuntimeError (List Value))}
    (h : Eval.Renames r r.Results start rest rest') :
    value.Belongs start → Eval.Renames r r.Results start
      (match value with
        | .error cause => pure (.error cause)
        | value => do
          match ← rest with
          | .ok values => pure (.ok (value :: values))
          | .error cause => pure (.error cause))
      (match value.renamed r with
        | .error cause => pure (.error cause)
        | value => do
          match ← rest' with
          | .ok values => pure (.ok (value :: values))
          | .error cause => pure (.error cause)) := by
  intro hvalue
  have hrest : Eval.Renames r r.Results start
      (do
        match ← rest with
        | .ok values => pure (.ok (value :: values))
        | .error cause => pure (.error cause))
      (do
        match ← rest' with
        | .ok values => pure (.ok (value.renamed r :: values))
        | .error cause => pure (.error cause)) := by
    apply h.bind
    intro middle result result' hmore hresult
    cases hresult with
    | ok hvalues =>
        exact renames_pure (.ok (List.forall_mem_cons.2 ⟨hvalue.mono hmore, hvalues⟩))
    | error cause => exact renames_pure (.error cause)
  cases value with
  | error cause => exact renames_pure (.error cause)
  | _ => exact hrest

variable {host : Host} {call : Call} {scope : ScopeId}

theorem repeats_alternative {alternative : Node}
    (h : Repeats r start (evaluate host call scope alternative)
      (evaluate host call (r.scope scope) alternative)) :
    Repeats r start (Moment.evaluateAlternative host call scope alternative)
      (Moment.evaluateAlternative host call (r.scope scope) alternative) := by
  cases alternative with
  | missing => exact repeats_pure .null
  | _ => exact h

mutual

theorem repeats_evaluate (hcall : CallsRepeat r call) (start : Machine)
    (hscope : scope < start.store.next) (node : Node) :
    Repeats r start (evaluate host call scope node)
      (evaluate host call (r.scope scope) node) := by
  cases node with
  | program token statements =>
      rw [evaluate, evaluate]
      apply (repeats_sequence hcall start hscope statements .null).bind
      rintro middle value _ _ ⟨hvalue, rfl⟩
      rw [Value.received_renamed]
      exact repeats_pure hvalue.received
  | letStatement token name value =>
      rw [evaluate, evaluate]
      apply (repeats_evaluate hcall start hscope value).withValue
      exact fun middle value _ hvalue => repeats_bindNode host scope name hvalue
  | returnStatement token value =>
      rw [evaluate, evaluate]
      apply (repeats_evaluate hcall start hscope value).withValue
      exact fun middle value _ hvalue => repeats_pure (.returned hvalue)
  | expressionStatement token value =>
      rw [evaluate, evaluate]
      exact repeats_evaluate hcall start hscope value
  | block token statements =>
      rw [evaluate, evaluate]
      exact repeats_sequence hcall start hscope statements .null
  | identifier token name =>
      intro start' hstart
      exact .ok (.refl start) hstart ⟨hstart.consistent.belongs_valueOf scope name,
        hstart.store.valueOf_eq hstart.consistent.ordered scope name⟩
  | integer token value => exact repeats_scalar (.integer value)
  | string token text => exact repeats_scalar (.string text)
  | boolean token value => exact repeats_scalar (.boolean value)
  | prefixed token operator right =>
      rw [evaluate, evaluate]
      apply (repeats_evaluate hcall start hscope right).withValue
      intro middle right _ _
      rw [Value.prefixed_renamed]
      exact repeats_pure (Value.scalar_prefixed operator right).belongs
  | binary token operator left right =>
      rw [evaluate, evaluate]
      apply (repeats_evaluate hcall start hscope left).withValue
      intro middle leftValue hmore _
      have hinside := Nat.lt_of_lt_of_le hscope hmore.scopes
      apply (repeats_evaluate hcall middle hinside right).withValue
      intro _ rightValue _ _
      rw [Value.binary_renamed]
      exact repeats_pure (Value.scalar_binary operator leftValue rightValue _).belongs
  | conditional token condition consequence alternative =>
      rw [Moment.evaluate_conditional, Moment.evaluate_conditional]
      apply (repeats_evaluate hcall start hscope condition).withValue
      intro middle value hmore _
      apply (renames_trace host.traceLevel _ _).bind
      intro middle' _ _ hmore' _
      have hinside := Nat.lt_of_lt_of_le hscope (hmore.trans hmore').scopes
      rw [Value.isTruthy_renamed]
      split
      · exact repeats_evaluate hcall middle' hinside consequence
      · exact repeats_alternative (repeats_evaluate hcall middle' hinside alternative)
  | function token parameters body => exact repeats_makeClosure parameters body hscope
  | call token callee arguments =>
      rw [evaluate, evaluate]
      apply (repeats_evaluate hcall start hscope callee).withValue
      intro middle function hmore hfunction
      have hinside := Nat.lt_of_lt_of_le hscope hmore.scopes
      apply repeats_useAll (renames_all hcall middle hinside arguments)
      intro middle' values hmore' hvalues
      exact hcall middle' function values (hfunction.mono hmore') hvalues
  | array token elements =>
      rw [evaluate, evaluate]
      apply repeats_useAll (renames_all hcall start hscope elements)
      intro middle values _ hvalues
      rw [← Value.renamed_array]
      exact repeats_pure (.array hvalues)
  | hash token pairs =>
      rw [evaluate, evaluate]
      exact repeats_pairs hcall start hscope pairs .nil (List.forall_mem_nil _)
  | index token target key =>
      rw [evaluate, evaluate]
      apply (repeats_evaluate hcall start hscope target).withValue
      intro middle targetValue hmore htarget
      have hinside := Nat.lt_of_lt_of_le hscope hmore.scopes
      apply (repeats_evaluate hcall middle hinside key).withValue
      intro middle' keyValue hmore' _
      rw [Value.lookUp_renamed]
      exact repeats_pure ((htarget.mono hmore').lookUp keyValue)
  | missing => exact renames_throw .missingNode
  | foreign => exact renames_throw .foreignNode
termination_by structural node

theorem repeats_sequence (hcall : CallsRepeat r call) (start : Machine)
    (hscope : scope < start.store.next) (statements : List Node) {last : Value}
    (hlast : last.Belongs start) :
    Repeats r start (evaluateSequence host call scope last statements)
      (evaluateSequence host call (r.scope scope) (last.renamed r) statements) := by
  cases statements with
  | nil => exact repeats_pure hlast
  | cons statement rest =>
      rw [evaluateSequence, evaluateSequence]
      apply (repeats_evaluate hcall start hscope statement).bind
      rintro middle value _ hmore ⟨hvalue, rfl⟩
      have hinside := Nat.lt_of_lt_of_le hscope hmore.scopes
      rw [Value.isSignal_renamed]
      split
      · exact repeats_pure hvalue
      · exact repeats_sequence hcall middle hinside rest hvalue
termination_by structural statements

theorem renames_all (hcall : CallsRepeat r call) (start : Machine)
    (hscope : scope < start.store.next) (nodes : List Node) :
    Eval.Renames r r.Results start (evaluateAll host call scope nodes)
      (evaluateAll host call (r.scope scope) nodes) := by
  cases nodes with
  | nil => exact renames_pure (.ok (List.forall_mem_nil _))
  | cons node rest =>
      rw [evaluateAll, evaluateAll]
      apply (repeats_evaluate hcall start hscope node).bind
      rintro middle value _ hmore ⟨hvalue, rfl⟩
      have hinside := Nat.lt_of_lt_of_le hscope hmore.scopes
      exact renames_cons (renames_all hcall middle hinside rest) hvalue
termination_by structural nodes

theorem repeats_pairs (hcall : CallsRepeat r call) (start : Machine)
    (hscope : scope < start.store.next) (pairs : List (Node × Node))
    {entries : List (HashKey × Value)} (hkeys : (Table.keys entries).Nodup)
    (hentries : ∀ entry ∈ entries, entry.2.Belongs start) :
    Repeats r start (evaluatePairs host call scope entries pairs)
      (evaluatePairs host call (r.scope scope) (Table.mapValues (Value.renamed r) entries)
        pairs) := by
  match pairs with
  | [] =>
      rw [evaluatePairs, evaluatePairs, ← Value.renamed_hash]
      exact repeats_pure (.hash hkeys hentries)
  | (key, value) :: rest =>
      rw [evaluatePairs, evaluatePairs]
      apply (repeats_evaluate hcall start hscope key).withValue
      intro middle keyValue hmore hkey
      rw [Value.hashKey?_renamed, Value.type_renamed]
      cases keyValue.hashKey? with
      | none => exact repeats_pure (.error _)
      | some hashKey =>
          have hinside := Nat.lt_of_lt_of_le hscope hmore.scopes
          apply (repeats_evaluate hcall middle hinside value).withValue
          intro middle' value hmore' hvalue
          have hinside' := Nat.lt_of_lt_of_le hinside hmore'.scopes
          have hearlier : ∀ entry ∈ entries, entry.2.Belongs middle' := fun entry hentry =>
            (hentries entry hentry).mono (hmore.trans hmore')
          have hkeys' := Table.nodup_keys_insert hkeys hashKey value
          rw [Table.insert_mapValues]
          exact repeats_pairs hcall middle' hinside' rest hkeys'
            (Table.of_mem_insert hearlier hvalue)
termination_by structural pairs

end

/-! ## Calls -/

theorem repeats_applyWith {runBody : ScopeId → Node → Eval Value}
    (hbody : ∀ start inner body, inner < start.store.next →
      Repeats r start (runBody inner body) (runBody (r.scope inner) body)) :
    CallsRepeat r (applyWith host runBody) := by
  intro start function arguments hfunction harguments
  cases hfunction with
  | @closure identity parameters body scope hidentity hscope =>
      rw [Value.renamed, Moment.applyWith_closure, Moment.applyWith_closure, List.length_map]
      split
      · exact repeats_pure (.error _)
      · apply (renames_enter host parameters hscope harguments).bind
        rintro middle inner _ _ ⟨hinner, rfl⟩
        apply (hbody middle inner body hinner).bind
        rintro _ value _ _ ⟨hvalue, rfl⟩
        rw [Value.received_renamed]
        exact repeats_pure hvalue.received
  | builtin builtin => exact repeats_callBuiltin host builtin arguments
  | _ => exact repeats_pure (.error _)

theorem callsRepeat (r : Renaming) (host : Host) (depth : Nat) :
    CallsRepeat r (apply host depth) := by
  induction depth with
  | zero => exact repeats_applyWith fun _ _ _ _ => renames_throw .recursionLimit
  | succ depth ih =>
      exact repeats_applyWith fun start inner body hinner => repeats_evaluate ih start hinner body

namespace Settings

variable (settings : Settings)

theorem repeats_evaluate (hscope : scope < start.store.next) (node : Node) :
    Repeats r start (settings.evaluate scope node) (settings.evaluate (r.scope scope) node) :=
  MonkeyLanguage.repeats_evaluate (callsRepeat r settings.toHost settings.depth) start hscope
    node

theorem repeats_run (hscope : scope < start.store.next) (program : Node) :
    Repeats r start (settings.run scope program) (settings.run (r.scope scope) program) := by
  apply (renames_trace settings.traceLevel _ _).bind
  intro middle _ _ hmore _
  have hinside : scope < middle.store.next := Nat.lt_of_lt_of_le hscope hmore.scopes
  apply (settings.repeats_evaluate hinside program).bind
  rintro final value _ _ ⟨hvalue, rfl⟩
  cases value with
  | error cause =>
      exact (renames_trace settings.traceLevel _ _).bind fun _ _ _ _ _ =>
        repeats_scalar (.error cause)
  | _ => exact repeats_pure hvalue

theorem repeats_call {function : Value} {arguments : List Value}
    (hfunction : function.Belongs start)
    (harguments : ∀ argument ∈ arguments, argument.Belongs start) :
    Repeats r start (settings.call function arguments)
      (settings.call (function.renamed r) (arguments.map (Value.renamed r))) :=
  callsRepeat r settings.toHost settings.depth start function arguments hfunction harguments

end Settings

end MonkeyLanguage
