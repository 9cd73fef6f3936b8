-- SUMMARY: Evaluations and runs of corresponding code, and calls of alike functions, end alike.
import MonkeyLanguage.Proofs.Alike.Machine

/-!
# Evaluations that are alike

On alike machines, corresponding code comes to alike values or to the same fault, and leaves alike
machines; so do calls of alike functions with alike arguments. The proof is by recursion on the
node, inside an induction on how many function bodies may run inside each other.
-/

namespace MonkeyLanguage

open Eval

variable {c : Correspondence}

/-- What comes out of several nodes: alike values, or the same error. -/
inductive ValuesAlike (c : Correspondence) :
    Except RuntimeError (List Value) → Except RuntimeError (List Value) → Prop where
  | ok {values values' : List Value} :
      List.Forall₂ (Value.Alike c) values values' → ValuesAlike c (.ok values) (.ok values')
  | error (cause : RuntimeError) : ValuesAlike c (.error cause) (.error cause)

/-- Calls of alike functions with alike arguments end alike. -/
def CallsAlike (c : Correspondence) (call call' : Call) : Prop :=
  ∀ function function' arguments arguments', function.Alike c function' →
    List.Forall₂ (Value.Alike c) arguments arguments' →
    Eval.Alike c (Value.Alike c) (call function arguments) (call' function' arguments')

namespace Correspondence

/-- The computations come to alike values on alike machines. -/
abbrev Computes (c : Correspondence) (computation computation' : Eval Value) : Prop :=
  Eval.Alike c (Value.Alike c) computation computation'

end Correspondence

/-- What is made of the values of several nodes. -/
theorem alike_useAll {computation computation' : Eval (Except RuntimeError (List Value))}
    {next next' : List Value → Eval Value}
    (h : Eval.Alike c (ValuesAlike c) computation computation')
    (hnext : ∀ values values', List.Forall₂ (Value.Alike c) values values' →
      c.Computes (next values) (next' values')) :
    c.Computes
      (do
        match ← computation with
        | .ok values => next values
        | .error cause => pure (.error cause))
      (do
        match ← computation' with
        | .ok values => next' values
        | .error cause => pure (.error cause)) := by
  apply h.bind
  intro result result' hresult
  cases hresult with
  | ok hvalues => exact hnext _ _ hvalues
  | error cause => exact alike_pure (.error cause)

/-- The value of a node, in front of those of the nodes after it. -/
theorem alike_cons {value value' : Value} {rest rest' : Eval (Except RuntimeError (List Value))}
    (h : Eval.Alike c (ValuesAlike c) rest rest') :
    value.Alike c value' → Eval.Alike c (ValuesAlike c)
      (match value with
        | .error cause => pure (.error cause)
        | value => do
          match ← rest with
          | .ok values => pure (.ok (value :: values))
          | .error cause => pure (.error cause))
      (match value' with
        | .error cause => pure (.error cause)
        | value => do
          match ← rest' with
          | .ok values => pure (.ok (value :: values))
          | .error cause => pure (.error cause)) := by
  intro hvalue
  have hrest : Eval.Alike c (ValuesAlike c)
      (do
        match ← rest with
        | .ok values => pure (.ok (value :: values))
        | .error cause => pure (.error cause))
      (do
        match ← rest' with
        | .ok values => pure (.ok (value' :: values))
        | .error cause => pure (.error cause)) := by
    apply h.bind
    intro values values' hvalues
    cases hvalues with
    | ok hvalues => exact alike_pure (.ok (.cons hvalue hvalues))
    | error cause => exact alike_pure (.error cause)
  cases hvalue with
  | error cause => exact alike_pure (.error cause)
  | _ => exact hrest

theorem alike_decided {value value' : Value} (h : value.Alike c value') :
    Eval.Alike c (fun _ _ => True) (Eval.trace c.host.traceLevel (.decided value))
      (Eval.trace c.host'.traceLevel (.decided value')) :=
  alike_trace (by rfl) (TraceEvent.line_decided h.inspect_eq h.isTruthy_eq)

variable {call call' : Call} {scope : ScopeId}

theorem alike_alternative {alternative alternative' : Node}
    (halternative : c.nodes alternative alternative')
    (h : c.Computes (evaluate c.host call scope alternative)
      (evaluate c.host' call' scope alternative')) :
    c.Computes (Moment.evaluateAlternative c.host call scope alternative)
      (Moment.evaluateAlternative c.host' call' scope alternative') := by
  cases c.matches_of_nodes halternative with
  | missing => exact alike_pure .null
  | _ => exact h

mutual

theorem alike_evaluate (hcall : CallsAlike c call call') (hscope : c.scopes scope)
    (node : Node) {node' : Node} (hnode : c.nodes node node') :
    c.Computes (evaluate c.host call scope node) (evaluate c.host' call' scope node') := by
  cases node with
  | program token statements =>
      cases c.matches_of_nodes hnode with
      | program hstatements =>
          rw [evaluate, evaluate]
          apply (alike_sequence hcall hscope statements hstatements .null).bind
          exact fun value value' hvalue => alike_pure hvalue.received
  | letStatement token name value =>
      cases c.matches_of_nodes hnode with
      | letStatement hname hvalue =>
          rw [evaluate, evaluate]
          apply (alike_evaluate hcall hscope value hvalue).withValue
          exact fun value value' hvalue => alike_bindNode scope hname hvalue
  | returnStatement token value =>
      cases c.matches_of_nodes hnode with
      | returnStatement hvalue =>
          rw [evaluate, evaluate]
          apply (alike_evaluate hcall hscope value hvalue).withValue
          exact fun value value' hvalue => alike_pure (.returned hvalue)
  | expressionStatement token value =>
      cases c.matches_of_nodes hnode with
      | expressionStatement hvalue =>
          rw [evaluate, evaluate]
          exact alike_evaluate hcall hscope value hvalue
  | block token statements =>
      cases c.matches_of_nodes hnode with
      | block hstatements =>
          rw [evaluate, evaluate]
          exact alike_sequence hcall hscope statements hstatements .null
  | identifier token name =>
      cases c.matches_of_nodes hnode with
      | identifier hname =>
          intro machine machine' hmachine
          exact .ok (hmachine.store.valueOf hscope hname) hmachine
  | integer token value =>
      cases c.matches_of_nodes hnode with
      | integer => exact alike_pure (.integer value)
  | string token text =>
      cases c.matches_of_nodes hnode with
      | string => exact alike_pure (.string text)
  | boolean token value =>
      cases c.matches_of_nodes hnode with
      | boolean => exact alike_pure (.boolean value)
  | prefixed token operator right =>
      cases c.matches_of_nodes hnode with
      | prefixed hright =>
          rw [evaluate, evaluate]
          apply (alike_evaluate hcall hscope right hright).withValue
          exact fun right right' hright => alike_pure (hright.prefixed operator)
  | binary token operator left right =>
      cases c.matches_of_nodes hnode with
      | binary hleft hright =>
          rw [evaluate, evaluate]
          apply (alike_evaluate hcall hscope left hleft).withValue
          intro leftValue leftValue' hleftValue
          apply (alike_evaluate hcall hscope right hright).withValue
          intro rightValue rightValue' hrightValue
          exact alike_pure (hleftValue.binary hrightValue operator _)
  | conditional token condition consequence alternative =>
      cases c.matches_of_nodes hnode with
      | conditional hcondition hconsequence halternative =>
          rw [Moment.evaluate_conditional, Moment.evaluate_conditional]
          apply (alike_evaluate hcall hscope condition hcondition).withValue
          intro value value' hvalue
          apply (alike_decided hvalue).bind
          intro _ _ _
          rw [← hvalue.isTruthy_eq]
          split
          · exact alike_evaluate hcall hscope consequence hconsequence
          · exact alike_alternative halternative
              (alike_evaluate hcall hscope alternative halternative)
  | function token parameters body =>
      cases c.matches_of_nodes hnode with
      | function hparameters hbody => exact alike_makeClosure hparameters hbody hscope
  | call token callee arguments =>
      cases c.matches_of_nodes hnode with
      | call hcallee harguments =>
          rw [evaluate, evaluate]
          apply (alike_evaluate hcall hscope callee hcallee).withValue
          intro function function' hfunction
          apply alike_useAll (alike_all hcall hscope arguments harguments)
          exact fun values values' hvalues => hcall _ _ _ _ hfunction hvalues
  | array token elements =>
      cases c.matches_of_nodes hnode with
      | array helements =>
          rw [evaluate, evaluate]
          apply alike_useAll (alike_all hcall hscope elements helements)
          exact fun values values' hvalues => alike_pure (Value.alike_array_iff.2 hvalues)
  | hash token pairs =>
      cases c.matches_of_nodes hnode with
      | hash hpairs =>
          rw [evaluate, evaluate]
          exact alike_pairs hcall hscope pairs hpairs .nil
  | index token target key =>
      cases c.matches_of_nodes hnode with
      | index htarget hkey =>
          rw [evaluate, evaluate]
          apply (alike_evaluate hcall hscope target htarget).withValue
          intro targetValue targetValue' htargetValue
          apply (alike_evaluate hcall hscope key hkey).withValue
          exact fun keyValue keyValue' hkeyValue => alike_pure (htargetValue.lookUp hkeyValue)
  | missing =>
      cases c.matches_of_nodes hnode with
      | missing => exact alike_throw .missingNode
  | foreign =>
      cases c.matches_of_nodes hnode with
      | foreign => exact alike_throw .foreignNode
termination_by structural node

theorem alike_sequence (hcall : CallsAlike c call call') (hscope : c.scopes scope)
    (statements : List Node) {statements' : List Node}
    (hstatements : List.Forall₂ c.nodes statements statements') {last last' : Value}
    (hlast : last.Alike c last') :
    c.Computes (evaluateSequence c.host call scope last statements)
      (evaluateSequence c.host' call' scope last' statements') := by
  cases statements with
  | nil =>
      cases hstatements with
      | nil => exact alike_pure hlast
  | cons statement rest =>
      cases hstatements with
      | cons hstatement hrest =>
          rw [evaluateSequence, evaluateSequence]
          apply (alike_evaluate hcall hscope statement hstatement).bind
          intro value value' hvalue
          rw [← hvalue.isSignal_eq]
          split
          · exact alike_pure hvalue
          · exact alike_sequence hcall hscope rest hrest hvalue
termination_by structural statements

theorem alike_all (hcall : CallsAlike c call call') (hscope : c.scopes scope)
    (nodes : List Node) {nodes' : List Node} (hnodes : List.Forall₂ c.nodes nodes nodes') :
    Eval.Alike c (ValuesAlike c) (evaluateAll c.host call scope nodes)
      (evaluateAll c.host' call' scope nodes') := by
  cases nodes with
  | nil =>
      cases hnodes with
      | nil => exact alike_pure (.ok .nil)
  | cons node rest =>
      cases hnodes with
      | cons hnode hrest =>
          rw [evaluateAll, evaluateAll]
          apply (alike_evaluate hcall hscope node hnode).bind
          intro value value' hvalue
          exact alike_cons (alike_all hcall hscope rest hrest) hvalue
termination_by structural nodes

theorem alike_pairs (hcall : CallsAlike c call call') (hscope : c.scopes scope)
    (pairs : List (Node × Node)) {pairs' : List (Node × Node)}
    (hpairs : List.Forall₂ (fun pair pair' => c.nodes pair.1 pair'.1 ∧ c.nodes pair.2 pair'.2)
      pairs pairs') {entries entries' : List (HashKey × Value)}
    (hentries : Table.Alike (Value.Alike c) entries entries') :
    c.Computes (evaluatePairs c.host call scope entries pairs)
      (evaluatePairs c.host' call' scope entries' pairs') := by
  match pairs with
  | [] =>
      cases hpairs with
      | nil => exact alike_pure (Value.alike_hash_iff.2 hentries)
  | (key, value) :: rest =>
      cases hpairs with
      | cons hpair hrest =>
          rw [evaluatePairs, evaluatePairs]
          apply (alike_evaluate hcall hscope key hpair.1).withValue
          intro keyValue keyValue' hkeyValue
          rw [← hkeyValue.hashKey?_eq, ← hkeyValue.type_eq]
          cases keyValue.hashKey? with
          | none => exact alike_pure (.error _)
          | some hashKey =>
              apply (alike_evaluate hcall hscope value hpair.2).withValue
              exact fun value value' hvalue =>
                alike_pairs hcall hscope rest hrest (hentries.insert hashKey hvalue)
termination_by structural pairs

end

/-! ## Calls -/

theorem alike_applyWith {runBody runBody' : ScopeId → Node → Eval Value}
    (hbody : ∀ inner body body', c.scopes inner → c.nodes body body' →
      c.Computes (runBody inner body) (runBody' inner body')) :
    CallsAlike c (applyWith c.host runBody) (applyWith c.host' runBody') := by
  intro function function' arguments arguments' hfunction harguments
  cases hfunction with
  | closure _ hparameters hnode hscope =>
      rw [Moment.applyWith_closure, Moment.applyWith_closure, ← hparameters.length_eq,
        ← harguments.length_eq]
      split
      · exact alike_pure (.error _)
      · apply (alike_enter hparameters hscope harguments).bind
        rintro inner _ ⟨rfl, hinner⟩
        apply (hbody inner _ _ hinner hnode).bind
        exact fun value value' hvalue => alike_pure hvalue.received
  | builtin builtin => exact alike_callBuiltin builtin harguments
  | _ => exact alike_pure (.error _)

theorem callsAlike (c : Correspondence) (depth : Nat) :
    CallsAlike c (apply c.host depth) (apply c.host' depth) := by
  induction depth with
  | zero => exact alike_applyWith fun _ _ _ _ _ => alike_throw .recursionLimit
  | succ depth ih =>
      exact alike_applyWith fun inner body body' hinner hnode =>
        alike_evaluate ih hinner body hnode

/-! ## Runs -/

/-- Runs of corresponding programs end alike, each at its own level. -/
theorem alike_run (c : Correspondence) (depth : Nat) {scope : ScopeId} (hscope : c.scopes scope)
    {program program' : Node} (h : c.nodes program program') :
    c.Computes (Settings.run ⟨c.host, depth⟩ scope program)
      (Settings.run ⟨c.host', depth⟩ scope program') := by
  have hstarted : (TraceEvent.started program.statements.length).line =
      (TraceEvent.started program'.statements.length).line := by
    rw [(c.forall₂_statements h).length_eq]
  apply (alike_trace (by rfl) hstarted).bind
  intro _ _ _
  apply (alike_evaluate (callsAlike c depth) hscope program h).bind
  intro value value' hvalue
  have hend : c.Computes (pure value) (pure value') := alike_pure hvalue
  cases hvalue with
  | error cause => exact (alike_trace rfl rfl).bind fun _ _ _ => hend
  | _ => exact hend

end MonkeyLanguage
