-- SUMMARY: Evaluation, with its signals, agrees with the rules for how code completes.
import MonkeyLanguage.Proofs.Completion.Signals

/-!
# Evaluation agrees with the rules

`evaluate` sends a `return` up as a value, and every place that it comes to has to look out for it.
The rules for how code completes know no such values: there a `return` leaves whatever is going on.
With all returns in their place, the two come to the same. The proof is by recursion on the node,
inside an induction on how many function bodies may run inside each other.
-/

namespace MonkeyLanguage

open Behaviour

/-! ## Nodes -/

section

variable {host : Host} {depth : Nat} {scope : ScopeId} {machine : Machine}

/-- Evaluating the node does what the rules say about it. -/
abbrev NodeAgrees (host : Host) (depth : Nat) (scope : ScopeId) (node : Node) (machine : Machine) :
    Prop :=
  Eval.Realizes .ofValue (evaluate host (apply host depth) scope node)
    (Completes host depth scope node) machine

/-- Tidy calls, with so many bodies inside each other, do what the rules say about them. -/
def CallsAgree (host : Host) (depth : Nat) : Prop :=
  ∀ function arguments machine, function.Tidy → (∀ argument ∈ arguments, argument.Tidy) →
    machine.Tidy →
    Eval.Realizes .ofValue (apply host depth function arguments)
      (CallCompletes host depth function arguments) machine

namespace NodeAgrees

/-- An operand, with what is done with its value. -/
theorem operand {node : Node} {next : Value → Eval Value} {rest : Value → Behaviour Value}
    (h : NodeAgrees host depth scope node machine) (hmachine : machine.Tidy) (hnode : node.Plain)
    (hnext : ∀ value middle, middle.Tidy → value.Tidy →
      Eval.Realizes .ofValue (next value) (rest value) middle) :
    Eval.Realizes .ofValue
      (Eval.withValue (evaluate host (apply host depth) scope node) next)
      (andThen (Completes host depth scope node) rest) machine := by
  apply h.bind
  · intro result value middle hresult hnormal
    obtain ⟨hmiddle, htidy⟩ := hmachine.of_plain hnode hresult
    cases herror : result.isError with
    | true =>
        cases result with
        | error cause => cases hnormal
        | _ => cases herror
    | false =>
        rw [if_neg Bool.false_ne_true]
        rw [Completion.ofValue_of_tidy (htidy herror)] at hnormal
        cases hnormal
        exact hnext result middle hmiddle (htidy herror)
  · intro result exit middle hresult habrupt
    cases herror : result.isError with
    | true => exact ⟨result, rfl, habrupt⟩
    | false =>
        obtain ⟨-, htidy⟩ := hmachine.of_plain hnode hresult
        rw [Completion.ofValue_of_tidy (htidy herror)] at habrupt
        cases habrupt

/-- A statement, with those after it. -/
theorem statement {node : Node} {next : Value → Eval Value} {rest : Value → Behaviour Value}
    (h : NodeAgrees host depth scope node machine)
    (hnext : ∀ value middle,
      evaluate host (apply host depth) scope node machine = .ok value middle →
      value.isSignal = false → Eval.Realizes .ofValue (next value) (rest value) middle) :
    Eval.Realizes .ofValue
      (do
        let value ← evaluate host (apply host depth) scope node
        if value.isSignal then pure value else next value)
      (andThen (Completes host depth scope node) rest) machine := by
  apply h.bind
  · intro result value middle hresult hnormal
    cases hsignal : result.isSignal with
    | true =>
        obtain ⟨exit, hexit⟩ := Completion.exists_exit_of_isSignal hsignal
        cases hexit.symm.trans hnormal
    | false =>
        rw [if_neg Bool.false_ne_true]
        rw [Completion.ofValue_of_not_isSignal hsignal] at hnormal
        cases hnormal
        exact hnext result middle hresult hsignal
  · intro result exit middle hresult habrupt
    cases hsignal : result.isSignal with
    | true => exact ⟨result, rfl, habrupt⟩
    | false =>
        rw [Completion.ofValue_of_not_isSignal hsignal] at habrupt
        cases habrupt

/-- An argument or element, with those after it. -/
theorem item {node : Node} {next : Value → Eval (Except RuntimeError (List Value))}
    {rest : Value → Behaviour (List Value)} (h : NodeAgrees host depth scope node machine)
    (hmachine : machine.Tidy) (hnode : node.Plain)
    (hnext : ∀ value middle, middle.Tidy →
      Eval.Realizes .ofValues (next value) (rest value) middle) :
    Eval.Realizes .ofValues
      (do
        match ← evaluate host (apply host depth) scope node with
        | .error cause => pure (.error cause)
        | value => next value)
      (andThen (Completes host depth scope node) rest) machine := by
  apply h.bind
  · intro result value middle hresult hnormal
    obtain ⟨hmiddle, htidy⟩ := hmachine.of_plain hnode hresult
    cases result with
    | error cause => cases hnormal
    | returned value => cases htidy rfl; contradiction
    | _ =>
        cases hnormal
        exact hnext _ middle hmiddle
  · intro result exit middle hresult habrupt
    obtain ⟨-, htidy⟩ := hmachine.of_plain hnode hresult
    cases result with
    | error cause =>
        cases habrupt
        exact ⟨.error cause, rfl, rfl⟩
    | returned value => cases htidy rfl; contradiction
    | _ => cases habrupt

end NodeAgrees

/-- What is made of the values of several nodes. -/
theorem realizes_useAll {computation : Eval (Except RuntimeError (List Value))}
    {work : Behaviour (List Value)} {next : List Value → Eval Value}
    {rest : List Value → Behaviour Value} (h : Eval.Realizes .ofValues computation work machine)
    (hnext : ∀ values middle, computation machine = .ok (.ok values) middle →
      Eval.Realizes .ofValue (next values) (rest values) middle) :
    Eval.Realizes .ofValue
      (do
        match ← computation with
        | .ok values => next values
        | .error cause => pure (.error cause))
      (work.andThen rest) machine := by
  apply h.bind
  · intro result values middle hresult hnormal
    cases result with
    | ok values =>
        cases hnormal
        exact hnext values middle hresult
    | error cause => cases hnormal
  · intro result exit middle hresult habrupt
    cases result with
    | ok values => cases habrupt
    | error cause =>
        cases habrupt
        exact ⟨.error cause, rfl, rfl⟩

theorem realizes_received {computation : Eval Value} {work : Behaviour Value}
    (h : Eval.Realizes .ofValue computation work machine)
    (hanswer : ∀ value final, computation machine = .ok value final → value.TidyAnswer) :
    Eval.Realizes .ofValue (do let value ← computation; pure value.received) work.received
      machine := by
  refine fun completion final => ⟨?_, ?_⟩
  · rintro ⟨inner, hinner, hcompletion⟩
    obtain ⟨value, hvalue, rfl⟩ := (h _ _).1 hinner
    rw [Eval.ok_bind hvalue, hcompletion,
      ← Completion.ofValue_received (hanswer value final hvalue)]
    exact ⟨_, rfl, rfl⟩
  · rintro ⟨result, hresult, hcompletion⟩
    obtain ⟨value, middle, hvalue, hreceived⟩ := Eval.ok_of_bind hresult
    cases hreceived
    rw [hcompletion, Completion.ofValue_received (hanswer value final hvalue)]
    exact ⟨_, (h _ _).2 ⟨value, hvalue, rfl⟩, rfl⟩

theorem realizes_trace {event : TraceEvent} {computation : Eval Value} {work : Behaviour Value}
    (h : Eval.Realizes .ofValue computation work (machine.trace host.traceLevel event)) :
    Eval.Realizes .ofValue (do Eval.trace host.traceLevel event; computation)
      (fun machine => work (machine.trace host.traceLevel event)) machine := by
  intro completion final
  exact h completion final

theorem realizes_computed {value : Value} (h : value.isReturned = false) :
    Eval.Realizes .ofValue (pure value) (ends (.computed value)) machine := by
  rw [← Completion.ofValue_eq_computed h]
  exact Eval.realizes_pure value

theorem realizes_bindNode (name : Node) {value : Value} (h : value.Tidy) :
    Eval.Realizes .ofValue (Eval.bindNode host scope name value) (binds host scope value name)
      machine := by
  cases name with
  | identifier token name =>
      refine Eval.realizes_of_ok (Moment.bindNode_eq scope (.identifier token name) value) ?_
      rw [Completion.ofValue_of_tidy h]
      exact fun _ _ => .rfl
  | _ => exact Eval.realizes_of_error rfl fun _ _ => id

/-! ## The recursion over nodes -/

mutual

theorem agrees_evaluate (hcalls : CallsAgree host depth) (node : Node) {machine : Machine}
    (hnode : node.inPlace = true) (hmachine : machine.Tidy) :
    NodeAgrees host depth scope node machine := by
  cases node with
  | program token statements =>
      rw [NodeAgrees, evaluate, completes_program]
      apply realizes_received (agrees_sequence hcalls .null statements hnode rfl hmachine)
      exact fun value final h => (hmachine.of_evaluateSequence hnode h).2
  | letStatement token name value =>
      simp only [Node.inPlace, Bool.and_eq_true, Bool.not_eq_true'] at hnode
      rw [NodeAgrees, evaluate, completes_letStatement]
      apply (agrees_evaluate hcalls value hnode.2 hmachine).operand hmachine ⟨hnode.2, hnode.1⟩
      exact fun value middle _ hvalue => realizes_bindNode name hvalue
  | returnStatement token value =>
      simp only [Node.inPlace, Bool.and_eq_true, Bool.not_eq_true'] at hnode
      rw [NodeAgrees, evaluate, completes_returnStatement]
      apply (agrees_evaluate hcalls value hnode.2 hmachine).operand hmachine ⟨hnode.2, hnode.1⟩
      exact fun value middle _ _ => Eval.realizes_pure (Value.returned value)
  | expressionStatement token value =>
      rw [NodeAgrees, evaluate, completes_expressionStatement]
      exact agrees_evaluate hcalls value hnode hmachine
  | block token statements =>
      rw [NodeAgrees, evaluate, completes_block]
      exact agrees_sequence hcalls .null statements hnode rfl hmachine
  | identifier token name =>
      have hvalue := (hmachine.computed_valueOf scope name).isReturned_eq_false
      refine Eval.realizes_of_ok rfl fun completion final => ?_
      rw [Completion.ofValue_eq_computed hvalue, completes_identifier]
      exact .rfl
  | integer token value =>
      rw [NodeAgrees, evaluate, completes_integer]
      exact Eval.realizes_pure (Value.integer value)
  | string token text =>
      rw [NodeAgrees, evaluate, completes_string]
      exact Eval.realizes_pure (Value.string text)
  | boolean token value =>
      rw [NodeAgrees, evaluate, completes_boolean]
      exact Eval.realizes_pure (Value.boolean value)
  | prefixed token operator right =>
      simp only [Node.inPlace, Bool.and_eq_true, Bool.not_eq_true'] at hnode
      rw [NodeAgrees, evaluate, completes_prefixed]
      apply (agrees_evaluate hcalls right hnode.2 hmachine).operand hmachine ⟨hnode.2, hnode.1⟩
      exact fun right middle _ _ => realizes_computed (Value.isReturned_prefixed operator right)
  | binary token operator left right =>
      simp only [Node.inPlace, Bool.and_eq_true, Bool.not_eq_true'] at hnode
      obtain ⟨⟨hleftReturns, hleft⟩, hrightReturns, hright⟩ := hnode
      rw [NodeAgrees, evaluate, completes_binary]
      apply (agrees_evaluate hcalls left hleft hmachine).operand hmachine ⟨hleft, hleftReturns⟩
      intro leftValue middle hmiddle _
      apply (agrees_evaluate hcalls right hright hmiddle).operand hmiddle ⟨hright, hrightReturns⟩
      exact fun rightValue last _ _ =>
        realizes_computed (Value.isReturned_binary operator leftValue rightValue _)
  | conditional token condition consequence alternative =>
      simp only [Node.inPlace, Bool.and_eq_true, Bool.not_eq_true'] at hnode
      obtain ⟨⟨hreturns, hcondition⟩, hconsequence, halternative⟩ := hnode
      rw [NodeAgrees, Moment.evaluate_conditional, completes_conditional]
      apply (agrees_evaluate hcalls condition hcondition hmachine).operand hmachine
        ⟨hcondition, hreturns⟩
      intro value middle hmiddle _
      apply realizes_trace
      have htraced : (middle.trace host.traceLevel (.decided value)).Tidy := by
        rw [Machine.Tidy, Moment.store_trace]
        exact hmiddle
      cases value.isTruthy with
      | true => exact agrees_evaluate hcalls consequence hconsequence htraced
      | false =>
          cases alternative with
          | missing => exact Eval.realizes_pure Value.null
          | _ => exact agrees_evaluate hcalls _ halternative htraced
  | function token parameters body =>
      refine Eval.realizes_of_ok rfl fun completion final => ?_
      rw [completes_function]
      exact .rfl
  | call token callee arguments =>
      simp only [Node.inPlace, Bool.and_eq_true, Bool.not_eq_true'] at hnode
      obtain ⟨⟨hcalleeReturns, hcallee⟩, hargumentsReturn, harguments⟩ := hnode
      have hplain := Node.plain_of_allInPlace hargumentsReturn harguments
      rw [NodeAgrees, evaluate, completes_call]
      apply (agrees_evaluate hcalls callee hcallee hmachine).operand hmachine
        ⟨hcallee, hcalleeReturns⟩
      intro function middle hmiddle hfunction
      apply realizes_useAll (agrees_all hcalls arguments hplain hmiddle)
      intro values last hvalues
      obtain ⟨hlast, htidy⟩ := hmiddle.of_evaluateAll hplain hvalues
      exact hcalls function values last hfunction htidy hlast
  | array token elements =>
      simp only [Node.inPlace, Bool.and_eq_true, Bool.not_eq_true'] at hnode
      have hplain := Node.plain_of_allInPlace hnode.1 hnode.2
      rw [NodeAgrees, evaluate, completes_array]
      apply realizes_useAll (agrees_all hcalls elements hplain hmachine)
      exact fun values last _ => Eval.realizes_pure (Value.array values)
  | hash token pairs =>
      simp only [Node.inPlace, Bool.and_eq_true, Bool.not_eq_true'] at hnode
      rw [NodeAgrees, evaluate, completes_hash]
      exact agrees_pairs hcalls [] pairs (Node.plain_of_pairsInPlace hnode.1 hnode.2) hmachine
  | index token target key =>
      simp only [Node.inPlace, Bool.and_eq_true, Bool.not_eq_true'] at hnode
      obtain ⟨⟨htargetReturns, htarget⟩, hkeyReturns, hkey⟩ := hnode
      rw [NodeAgrees, evaluate, completes_index]
      apply (agrees_evaluate hcalls target htarget hmachine).operand hmachine
        ⟨htarget, htargetReturns⟩
      intro targetValue middle hmiddle htargetValue
      apply (agrees_evaluate hcalls key hkey hmiddle).operand hmiddle ⟨hkey, hkeyReturns⟩
      exact fun keyValue last _ _ =>
        realizes_computed (htargetValue.lookUp keyValue).isReturned_eq_false
  | missing =>
      rw [NodeAgrees, evaluate, completes_missing]
      exact Eval.realizes_throw .missingNode
  | foreign =>
      rw [NodeAgrees, evaluate, completes_foreign]
      exact Eval.realizes_throw .foreignNode

theorem agrees_sequence (hcalls : CallsAgree host depth) (last : Value) (statements : List Node)
    {machine : Machine} (hstatements : Node.allInPlace statements = true)
    (hlast : last.isSignal = false) (hmachine : machine.Tidy) :
    Eval.Realizes .ofValue
      (evaluateSequence host (apply host depth) scope last statements)
      (SequenceCompletes host depth scope last statements) machine := by
  cases statements with
  | nil =>
      rw [evaluateSequence, sequenceCompletes_nil, ← Completion.ofValue_of_not_isSignal hlast]
      exact Eval.realizes_pure last
  | cons statement rest =>
      simp only [Node.allInPlace, Bool.and_eq_true] at hstatements
      rw [evaluateSequence, sequenceCompletes_cons]
      apply (agrees_evaluate hcalls statement hstatements.1 hmachine).statement
      intro value middle hvalue hsignal
      have hmiddle := (hmachine.of_evaluate hstatements.1 hvalue).1
      exact agrees_sequence hcalls value rest hstatements.2 hsignal hmiddle

theorem agrees_all (hcalls : CallsAgree host depth) (nodes : List Node) {machine : Machine}
    (hnodes : ∀ node ∈ nodes, node.Plain) (hmachine : machine.Tidy) :
    Eval.Realizes .ofValues (evaluateAll host (apply host depth) scope nodes)
      (ItemsComplete host depth scope nodes) machine := by
  cases nodes with
  | nil =>
      rw [evaluateAll, itemsComplete_nil]
      exact Eval.realizes_pure (Except.ok [])
  | cons node rest =>
      obtain ⟨hnode, hrest⟩ := List.forall_mem_cons.1 hnodes
      rw [evaluateAll, itemsComplete_cons]
      apply (agrees_evaluate hcalls node hnode.inPlace hmachine).item hmachine hnode
      intro value middle hmiddle
      apply (agrees_all hcalls rest hrest hmiddle).bind
      · intro result values last _ hnormal
        cases result with
        | ok values =>
            cases hnormal
            exact Eval.realizes_pure (Except.ok (value :: values))
        | error cause => cases hnormal
      · intro result exit last _ habrupt
        cases result with
        | ok values => cases habrupt
        | error cause => exact ⟨.error cause, rfl, habrupt⟩

theorem agrees_pairs (hcalls : CallsAgree host depth) (entries : List (HashKey × Value))
    (pairs : List (Node × Node)) {machine : Machine}
    (hpairs : ∀ pair ∈ pairs, pair.1.Plain ∧ pair.2.Plain) (hmachine : machine.Tidy) :
    Eval.Realizes .ofValue (evaluatePairs host (apply host depth) scope entries pairs)
      (PairsComplete host depth scope entries pairs) machine := by
  match pairs with
  | [] =>
      rw [evaluatePairs, pairsComplete_nil]
      exact Eval.realizes_pure (Value.hash entries)
  | (key, value) :: rest =>
      obtain ⟨⟨hkey, hvalue⟩, hrest⟩ := List.forall_mem_cons.1 hpairs
      rw [evaluatePairs, pairsComplete_cons]
      apply (agrees_evaluate hcalls key hkey.inPlace hmachine).operand hmachine hkey
      intro keyValue middle hmiddle _
      cases keyValue.hashKey? with
      | none => exact Eval.realizes_pure (Value.error (.unusableKey keyValue.type))
      | some hashKey =>
          apply (agrees_evaluate hcalls value hvalue.inPlace hmiddle).operand hmiddle hvalue
          exact fun value last hlast _ => agrees_pairs hcalls _ rest hrest hlast

end

/-! ## Calls -/

section

variable {identity : Nat} {parameters : List Node} {body : Node} {arguments : List Value}
  {names : List String}

theorem enter_of_names (h : Node.parameterNames parameters = .ok names) :
    Eval.enter host parameters scope arguments machine =
      .ok machine.store.next (machine.atBody host scope names arguments) := by
  rw [Moment.enter_eq, h]
  simp only [Moment.store_trace, Machine.atBody]

theorem callCompletes_closure (hcount : arguments.length = parameters.length)
    {completion : Completion Value} {final : Machine} :
    CallCompletes host depth (.closure identity parameters body scope) arguments machine completion
        final ↔
      ∃ rest names, depth = rest + 1 ∧ Node.parameterNames parameters = .ok names ∧
        received (Completes host rest machine.store.next body)
          (machine.atBody host scope names arguments) completion final := by
  refine ⟨fun h => ?_, fun h => ?_⟩
  · cases h with
    | wrongCount hwrong => exact (hwrong hcount).elim
    | closure _ hnames hbody => exact ⟨_, _, rfl, hnames, _, hbody, rfl⟩
    | notAFunction hfunction => exact (hfunction rfl).elim
  · obtain ⟨rest, names, rfl, hnames, inner, hbody, rfl⟩ := h
    exact .closure hcount hnames hbody

/-- A closure is called as the rules say if its body is run so once the arguments are bound. -/
theorem realizes_closure {runBody : ScopeId → Node → Eval Value}
    (hbody : ∀ names, arguments.length = parameters.length →
      Node.parameterNames parameters = .ok names →
      Eval.Realizes .ofValue
        (do let value ← runBody machine.store.next body; pure value.received)
        (fun _ => CallCompletes host depth (.closure identity parameters body scope) arguments
          machine)
        (machine.atBody host scope names arguments)) :
    Eval.Realizes .ofValue
      (applyWith host runBody (.closure identity parameters body scope) arguments)
      (CallCompletes host depth (.closure identity parameters body scope) arguments) machine := by
  rw [Moment.applyWith_closure]
  split
  case isTrue hcount =>
    refine Eval.realizes_of_ok rfl fun completion final => ⟨fun h => ?_, ?_⟩
    · cases h with
      | wrongCount => exact ⟨rfl, rfl⟩
      | closure hsame => exact (hcount hsame).elim
      | notAFunction hfunction => exact (hfunction rfl).elim
    · rintro ⟨rfl, rfl⟩
      exact .wrongCount hcount
  case isFalse hcount =>
    replace hcount := Decidable.not_not.1 hcount
    cases hnames : Node.parameterNames parameters with
    | error fault =>
        have henter : Eval.enter host parameters scope arguments machine =
            .error fault machine := by
          rw [Moment.enter_eq, hnames]
        refine Eval.realizes_of_error (Eval.error_bind henter) fun completion final h => ?_
        obtain ⟨rest, names, -, hother, -⟩ := (callCompletes_closure hcount).1 h
        cases hnames.symm.trans hother
    | ok names =>
        intro completion final
        rw [Eval.ok_bind (enter_of_names hnames)]
        exact hbody names hcount hnames completion final

end

theorem callBuiltin_eq (builtin : Builtin) (arguments : List Value) :
    Eval.callBuiltin host builtin arguments machine =
      .ok (builtin.run arguments machine.console).1
        (machine.afterBuiltin host builtin arguments) := by
  rw [Machine.afterBuiltin,
    ← Moment.console_trace host.traceLevel (.calledBuiltin builtin arguments.length)]
  rfl

theorem realizes_builtin (builtin : Builtin) (arguments : List Value) :
    Eval.Realizes .ofValue (Eval.callBuiltin host builtin arguments)
      (CallCompletes host depth (.builtin builtin) arguments) machine := by
  refine Eval.realizes_of_ok (callBuiltin_eq builtin arguments) fun completion final => ?_
  have hvalue : Value.Computed False (fun _ _ => True)
      (builtin.run arguments machine.console).1 := Value.computed_runBuiltin ..
  rw [Completion.ofValue_eq_computed hvalue.isReturned_eq_false]
  refine ⟨fun h => ?_, ?_⟩
  · cases h with
    | builtin => exact ⟨rfl, rfl⟩
    | notAFunction _ hfunction => exact (hfunction rfl).elim
  · rintro ⟨rfl, rfl⟩
    exact .builtin

theorem realizes_notAFunction {function : Value} {arguments : List Value}
    (hclosure : function.type ≠ .function) (hbuiltin : function.type ≠ .builtin) :
    Eval.Realizes .ofValue (pure (.error (.notAFunction function.type)))
      (CallCompletes host depth function arguments) machine := by
  refine Eval.realizes_of_ok rfl fun completion final => ⟨fun h => ?_, ?_⟩
  · cases h with
    | wrongCount => exact (hclosure rfl).elim
    | closure => exact (hclosure rfl).elim
    | builtin => exact (hbuiltin rfl).elim
    | notAFunction => exact ⟨rfl, rfl⟩
  · rintro ⟨rfl, rfl⟩
    exact .notAFunction hclosure hbuiltin

theorem callsAgree (host : Host) (depth : Nat) : CallsAgree host depth := by
  induction depth with
  | zero =>
      intro function arguments machine hfunction harguments hmachine
      cases hfunction with
      | closure hbody =>
          -- No body may run, so neither side comes to an end.
          apply realizes_closure
          intro names hcount hnames
          refine Eval.realizes_of_error rfl fun completion final h => ?_
          obtain ⟨rest, _, hdepth, -⟩ := (callCompletes_closure hcount).1 h
          cases hdepth
      | builtin builtin => exact realizes_builtin builtin arguments
      | _ => exact realizes_notAFunction nofun nofun
  | succ depth ih =>
      intro function arguments machine hfunction harguments hmachine
      cases hfunction with
      | @closure identity parameters body scope hbody =>
          apply realizes_closure
          intro names hcount hnames
          have hstart : (machine.atBody host scope names arguments).Tidy :=
            Moment.holds_enter hmachine harguments (enter_of_names hnames)
          have hagrees : NodeAgrees host depth machine.store.next body _ :=
            agrees_evaluate ih body hbody hstart
          have hreceived := realizes_received hagrees fun value final h =>
            (hstart.of_evaluate hbody h).2
          intro completion final
          rw [← hreceived completion final]
          refine (callCompletes_closure hcount).trans ⟨?_, fun h => ⟨depth, names, rfl, hnames, h⟩⟩
          rintro ⟨_, _, ⟨⟩, hother, h⟩
          cases hnames.symm.trans hother
          exact h
      | builtin builtin => exact realizes_builtin builtin arguments
      | _ => exact realizes_notAFunction nofun nofun

end

end MonkeyLanguage
