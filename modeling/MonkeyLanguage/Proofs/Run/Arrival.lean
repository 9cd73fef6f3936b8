-- SUMMARY: Every evaluation and every call arrives, step by step, at the outcome it has.
import MonkeyLanguage.Proofs.Run.Moment

/-!
# Evaluations arrive

The steps of a run do what `evaluate` and `apply` say: from any moment, whatever frames wait, they
lead to the value or fault that the function computes, with the same frames and the machine that
the function leaves. The proof is by recursion on the node, inside an induction on the depth.
-/

namespace MonkeyLanguage

/-- The computation that a control stands for, with so many bodies inside each other. -/
def Control.meaning (host : Host) (depth : Nat) : Control → Eval Value
  | .evaluate scope node => MonkeyLanguage.evaluate host (apply host depth) scope node
  | .call function arguments => apply host depth function arguments
  | .answer value => pure value
  | .fault cause => throw cause

/-- What comes out of the work of a moment, whatever frames wait for it. -/
def Moment.meaning (host : Host) (moment : Moment) : EStateM.Result Fault Machine Value :=
  moment.control.meaning host moment.depth moment.machine

theorem Frame.ne_body_of_wantsValue {frame : Frame} (h : frame.wantsValue = true) :
    frame ≠ .body := by
  rintro rfl
  cases h

namespace Eval

variable {α β : Type} {computation : Eval α} {next : α → Eval β} {machine middle : Machine}

theorem ok_bind {result : α} (h : computation machine = .ok result middle) :
    (computation >>= next) machine = next result middle := by
  simp only [bind, EStateM.bind, h]

theorem error_bind {fault : Fault} (h : computation machine = .error fault middle) :
    (computation >>= next) machine = .error fault middle := by
  simp only [bind, EStateM.bind, h]

/-- Of two computations in a row that give a result, the first gives one too. -/
theorem ok_of_bind {final : Machine} {result : β}
    (h : (computation >>= next) machine = .ok result final) :
    ∃ value middle, computation machine = .ok value middle ∧
      next value middle = .ok result final := by
  cases hfirst : computation machine with
  | ok value middle =>
      rw [ok_bind hfirst] at h
      exact ⟨value, middle, rfl, h⟩
  | error fault middle =>
      rw [error_bind hfirst] at h
      cases h

end Eval

namespace Moment

variable {host : Host} {frames : List Frame} {depth : Nat} {machine : Machine}

/-! ## Computations and moments after them -/

theorem after_pure (value : Value) :
    after frames depth machine (pure value) = ⟨.answer value, frames, depth, machine⟩ := rfl

theorem after_of_ok {computation : Eval Value} {value : Value} {final : Machine}
    (h : computation machine = .ok value final) :
    after frames depth machine computation = ⟨.answer value, frames, depth, final⟩ := by
  rw [after, h]

theorem after_of_error {computation : Eval Value} {fault : Fault} {final : Machine}
    (h : computation machine = .error fault final) :
    after frames depth machine computation = ⟨.fault fault, frames, depth, final⟩ := by
  rw [after, h]

theorem after_bind_ok {α : Type} {computation : Eval α} {next : α → Eval Value} {result : α}
    {middle : Machine} (h : computation machine = .ok result middle) :
    after frames depth machine (computation >>= next) =
      after frames depth middle (next result) := by
  simp only [after, bind, EStateM.bind, h]

theorem after_bind_error {α : Type} {computation : Eval α} {next : α → Eval Value}
    {fault : Fault} {middle : Machine} (h : computation machine = .error fault middle) :
    after frames depth machine (computation >>= next) =
      ⟨.fault fault, frames, depth, middle⟩ := by
  simp only [after, bind, EStateM.bind, h]

theorem after_trace (event : TraceEvent) (computation : Eval Value) :
    after frames depth machine (do Eval.trace host.traceLevel event; computation) =
      after frames depth (machine.trace host.traceLevel event) computation :=
  after_bind_ok rfl

/-! ## Single steps -/

theorem reaches_of_step {moment next : Moment} (h : moment.step host = some next) :
    Reaches host moment next :=
  .single h

theorem reaches_unwind {frame : Frame} (hframe : frame ≠ .body) (fault : Fault) :
    Reaches host ⟨.fault fault, frame :: frames, depth, machine⟩
      ⟨.fault fault, frames, depth, machine⟩ :=
  reaches_of_step (by cases frame <;> first | rfl | exact absurd rfl hframe)

theorem reaches_past {frame : Frame} (hframe : frame.wantsValue = true) {value : Value}
    (herror : value.isError = true) :
    Reaches host ⟨.answer value, frame :: frames, depth, machine⟩
      ⟨.answer value, frames, depth, machine⟩ :=
  reaches_of_step (by simp [step, arrive, hframe, herror])

theorem reaches_resume {frame : Frame} {value : Value}
    (h : (frame.wantsValue && value.isError) = false) :
    Reaches host ⟨.answer value, frame :: frames, depth, machine⟩
      (resume host frames depth machine value frame) :=
  reaches_of_step (by simp only [step, arrive, h]; rfl)

/-- A computation that a frame waits for goes on as the frame does. -/
theorem Reaches.bind {moment : Moment} {frame : Frame} (hframe : frame ≠ .body)
    {computation : Eval Value} {next : Value → Eval Value}
    (hfirst : Reaches host moment (after (frame :: frames) depth machine computation))
    (hnext : ∀ value middle, Reaches host ⟨.answer value, frame :: frames, depth, middle⟩
      (after frames depth middle (next value))) :
    Reaches host moment (after frames depth machine (computation >>= next)) := by
  cases hresult : computation machine with
  | ok value middle =>
      rw [after_of_ok hresult] at hfirst
      rw [after_bind_ok hresult]
      exact hfirst.trans (hnext value middle)
  | error fault middle =>
      rw [after_of_error hresult] at hfirst
      rw [after_bind_error hresult]
      exact hfirst.trans (reaches_unwind hframe fault)

/-- A frame that wants a value goes on as `Eval.withValue` does. -/
theorem Reaches.withValue {moment : Moment} {frame : Frame} (hframe : frame.wantsValue = true)
    {computation : Eval Value} {next : Value → Eval Value}
    (hfirst : Reaches host moment (after (frame :: frames) depth machine computation))
    (hnext : ∀ value middle, value.isError = false →
      Reaches host (resume host frames depth middle value frame)
        (after frames depth middle (next value))) :
    Reaches host moment (after frames depth machine (Eval.withValue computation next)) := by
  apply hfirst.bind (Frame.ne_body_of_wantsValue hframe)
  intro value middle
  cases herror : value.isError with
  | true =>
      rw [if_pos rfl, after_pure]
      exact reaches_past hframe herror
  | false =>
      rw [if_neg Bool.false_ne_true]
      have hpasses : (frame.wantsValue && value.isError) = false := by rw [herror, Bool.and_false]
      exact (reaches_resume hpasses).trans (hnext value middle herror)

/-- A conditional hands up what comes out of the block that it chose. -/
theorem Reaches.handedUp {moment : Moment} {computation : Eval Value}
    (h : Reaches host moment (after (.branch :: frames) depth machine computation)) :
    Reaches host moment (after frames depth machine computation) := by
  rw [← bind_pure computation]
  exact h.bind (by simp) fun value middle => reaches_resume rfl

/-! ## Nodes -/

/-- What is made of the values of several nodes. -/
def useAll (host : Host) (depth : Nat) : Collector → List Value → Eval Value
  | .arguments function, values => apply host depth function values
  | .elements, values => pure (.array values)

/-- The rest of the nodes are evaluated, and all values are used, or the first error instead. -/
def evaluateRest (host : Host) (depth : Nat) (scope : ScopeId) (collector : Collector)
    (before : List Value) (nodes : List Node) : Eval Value := do
  match ← evaluateAll host (apply host depth) scope nodes with
  | .ok values => useAll host depth collector (before ++ values)
  | .error cause => pure (.error cause)

/-- The value of the alternative of a conditional, which may be missing. -/
def evaluateAlternative (host : Host) (call : Call) (scope : ScopeId) : Node → Eval Value
  | .missing => pure .null
  | alternative => evaluate host call scope alternative

theorem evaluate_conditional (call : Call) (scope : ScopeId) (token : Token)
    (condition consequence alternative : Node) :
    evaluate host call scope (.conditional token condition consequence alternative) =
      Eval.withValue (evaluate host call scope condition) (fun value => do
        Eval.trace host.traceLevel (.decided value)
        if value.isTruthy then evaluate host call scope consequence
        else evaluateAlternative host call scope alternative) := by
  cases alternative <;> rfl

theorem reaches_otherwise {call : Call} {scope : ScopeId} {alternative : Node}
    (h : Reaches host ⟨.evaluate scope alternative, .branch :: frames, depth, machine⟩
      (after (.branch :: frames) depth machine (evaluate host call scope alternative))) :
    Reaches host (otherwise frames depth machine scope alternative)
      (after frames depth machine (evaluateAlternative host call scope alternative)) := by
  cases alternative with
  | missing => exact .refl
  | _ => exact h.handedUp

theorem evaluateRest_cons (scope : ScopeId) (collector : Collector) (before : List Value)
    (node : Node) (rest : List Node) :
    evaluateRest host depth scope collector before (node :: rest) =
      Eval.withValue (evaluate host (apply host depth) scope node) fun value =>
        evaluateRest host depth scope collector (before ++ [value]) rest := by
  unfold evaluateRest Eval.withValue
  rw [evaluateAll, bind_assoc]
  congr 1
  funext value
  cases value with
  | error cause => rfl
  | _ =>
      simp only [bind_assoc, Value.isError]
      congr 1
      funext values
      cases values <;> simp

/-- Calls arrive, with so many bodies inside each other. -/
def CallsArrive (host : Host) (depth : Nat) : Prop :=
  ∀ function arguments frames machine,
    Reaches host ⟨.call function arguments, frames, depth, machine⟩
      (after frames depth machine (apply host depth function arguments))

mutual

theorem arrives_evaluate (hcall : CallsArrive host depth) (scope : ScopeId) (node : Node)
    (frames : List Frame) (machine : Machine) :
    Reaches host ⟨.evaluate scope node, frames, depth, machine⟩
      (after frames depth machine (evaluate host (apply host depth) scope node)) := by
  cases node with
  | program token statements =>
      refine .head rfl ?_
      rw [evaluate]
      have hstatements := arrives_sequence hcall scope .null statements (.receive :: frames) machine
      apply hstatements.bind (by simp)
      intro value middle
      exact reaches_resume rfl
  | letStatement token name value =>
      refine .head rfl ?_
      rw [evaluate]
      exact (arrives_evaluate hcall scope value _ _).withValue rfl fun value middle _ => .refl
  | returnStatement token value =>
      refine .head rfl ?_
      rw [evaluate]
      exact (arrives_evaluate hcall scope value _ _).withValue rfl fun value middle _ => .refl
  | expressionStatement token value =>
      refine .head rfl ?_
      rw [evaluate]
      exact arrives_evaluate hcall scope value _ _
  | block token statements =>
      refine .head rfl ?_
      rw [evaluate]
      exact arrives_sequence hcall scope .null statements _ _
  | identifier token name => exact reaches_of_step rfl
  | integer token value => exact reaches_of_step rfl
  | string token text => exact reaches_of_step rfl
  | boolean token value => exact reaches_of_step rfl
  | prefixed token operator right =>
      refine .head rfl ?_
      rw [evaluate]
      exact (arrives_evaluate hcall scope right _ _).withValue rfl fun value middle _ => .refl
  | binary token operator left right =>
      refine .head rfl ?_
      rw [evaluate]
      apply (arrives_evaluate hcall scope left _ _).withValue rfl
      intro value middle _
      exact (arrives_evaluate hcall scope right _ _).withValue rfl fun value middle _ => .refl
  | conditional token condition consequence alternative =>
      refine .head rfl ?_
      rw [evaluate_conditional]
      apply (arrives_evaluate hcall scope condition _ _).withValue rfl
      intro value middle _
      rw [after_trace, resume]
      split
      · exact (arrives_evaluate hcall scope consequence _ _).handedUp
      · exact reaches_otherwise (arrives_evaluate hcall scope alternative _ _)
  | function token parameters body => exact reaches_of_step rfl
  | call token callee arguments =>
      refine .head rfl ?_
      rw [evaluate]
      apply (arrives_evaluate hcall scope callee _ _).withValue rfl
      intro value middle _
      exact arrives_collect hcall scope (.arguments value) [] arguments _ _
  | array token elements =>
      refine .head rfl ?_
      rw [evaluate]
      exact arrives_collect hcall scope .elements [] elements _ _
  | hash token pairs =>
      refine .head rfl ?_
      rw [evaluate]
      exact arrives_gather hcall scope [] pairs _ _
  | index token target key =>
      refine .head rfl ?_
      rw [evaluate]
      apply (arrives_evaluate hcall scope target _ _).withValue rfl
      intro value middle _
      exact (arrives_evaluate hcall scope key _ _).withValue rfl fun value middle _ => .refl
  | missing => exact reaches_of_step rfl
  | foreign => exact reaches_of_step rfl

theorem arrives_sequence (hcall : CallsArrive host depth) (scope : ScopeId) (last : Value)
    (statements : List Node) (frames : List Frame) (machine : Machine) :
    Reaches host (sequence frames depth machine scope last statements)
      (after frames depth machine
        (evaluateSequence host (apply host depth) scope last statements)) := by
  cases statements with
  | nil => exact .refl
  | cons statement rest =>
      rw [evaluateSequence]
      apply (arrives_evaluate hcall scope statement _ _).bind (by simp)
      intro value middle
      refine (reaches_resume (by simp [Frame.wantsValue])).trans ?_
      rw [resume]
      split
      · exact .refl
      · exact arrives_sequence hcall scope value rest _ _

theorem arrives_collect (hcall : CallsArrive host depth) (scope : ScopeId)
    (collector : Collector) (before : List Value) (nodes : List Node) (frames : List Frame)
    (machine : Machine) :
    Reaches host (collect frames depth machine scope collector before nodes)
      (after frames depth machine
        (evaluateRest host depth scope collector before nodes)) := by
  cases nodes with
  | nil =>
      have huse : evaluateRest host depth scope collector before [] =
          useAll host depth collector before := by
        simp [evaluateRest, evaluateAll]
      rw [huse]
      cases collector with
      | arguments function => exact hcall function before frames machine
      | elements => exact .refl
  | cons node rest =>
      rw [evaluateRest_cons]
      exact (arrives_evaluate hcall scope node _ _).withValue rfl fun value middle _ =>
        arrives_collect hcall scope collector (before ++ [value]) rest _ _

theorem arrives_gather (hcall : CallsArrive host depth) (scope : ScopeId)
    (entries : List (HashKey × Value)) (pairs : List (Node × Node)) (frames : List Frame)
    (machine : Machine) :
    Reaches host (gather frames depth machine scope entries pairs)
      (after frames depth machine
        (evaluatePairs host (apply host depth) scope entries pairs)) := by
  match pairs with
  | [] => exact .refl
  | (key, value) :: rest =>
      rw [evaluatePairs]
      apply (arrives_evaluate hcall scope key _ _).withValue rfl
      intro keyValue middle _
      rw [resume]
      cases hkey : keyValue.hashKey? with
      | none => exact .refl
      | some hashKey =>
          exact (arrives_evaluate hcall scope value _ _).withValue rfl fun value middle _ =>
            arrives_gather hcall scope _ rest _ _

end

/-! ## Calls -/

theorem applyWith_closure (runBody : ScopeId → Node → Eval Value) (identity : Nat)
    (parameters : List Node) (body : Node) (scope : ScopeId) (arguments : List Value) :
    applyWith host runBody (.closure identity parameters body scope) arguments =
      if arguments.length ≠ parameters.length then
        pure (.error (.wrongArgumentCount arguments.length parameters.length))
      else (do
        let inner ← Eval.enter host parameters scope arguments
        let value ← runBody inner body
        pure value.received) := by
  simp only [applyWith, Eval.enter, bind_assoc, pure_bind]

/-- A body that arrives leads back to where its function was called. -/
theorem Reaches.received {moment : Moment} {computation : Eval Value}
    (h : Reaches host moment (after (.body :: frames) depth machine computation)) :
    Reaches host moment
      (after frames (depth + 1) machine (do let value ← computation; pure value.received)) := by
  cases hresult : computation machine with
  | ok value final =>
      rw [after_of_ok hresult] at h
      rw [after_bind_ok hresult, after_pure]
      exact h.trans (reaches_resume rfl)
  | error fault final =>
      rw [after_of_error hresult] at h
      rw [after_bind_error hresult]
      exact h.trans (reaches_of_step rfl)

/-- A call arrives if the body of its function does. -/
theorem arrives_closure {runBody : ScopeId → Node → Eval Value} {identity : Nat}
    {parameters : List Node} {body : Node} {scope : ScopeId} {arguments : List Value}
    (hbody : ∀ inner middle, Reaches host (Moment.runBody frames middle inner body depth)
      (after frames depth middle (do let value ← runBody inner body; pure value.received))) :
    Reaches host
      ⟨.call (.closure identity parameters body scope) arguments, frames, depth, machine⟩
      (after frames depth machine
        (applyWith host runBody (.closure identity parameters body scope) arguments)) := by
  refine .head rfl ?_
  rw [applyWith_closure, enter]
  split
  · exact .refl
  · cases henter : Eval.enter host parameters scope arguments machine with
    | ok inner middle =>
        rw [after_bind_ok henter]
        exact hbody inner middle
    | error fault middle =>
        rw [after_bind_error henter]

theorem callsArrive (host : Host) (depth : Nat) : CallsArrive host depth := by
  induction depth with
  | zero =>
      intro function arguments frames machine
      cases function with
      | closure => exact arrives_closure fun inner middle => .refl
      | _ => exact reaches_of_step rfl
  | succ depth ih =>
      intro function arguments frames machine
      cases function with
      | closure identity parameters body scope =>
          exact arrives_closure fun inner middle => (arrives_evaluate ih inner body _ _).received
      | _ => exact reaches_of_step rfl

/-- Whatever is worked on arrives at its outcome, with the frames that waited for it. -/
theorem arrives (host : Host) (moment : Moment) :
    Reaches host moment (after moment.frames moment.depth moment.machine
      (moment.control.meaning host moment.depth)) := by
  obtain ⟨control, frames, depth, machine⟩ := moment
  cases control with
  | evaluate scope node =>
      exact arrives_evaluate (callsArrive host depth) scope node frames machine
  | call function arguments => exact callsArrive host depth function arguments frames machine
  | answer value => exact .refl
  | fault fault => exact .refl

theorem arrives_of_ok {moment : Moment} {value : Value} {final : Machine}
    (h : moment.meaning host = .ok value final) :
    Reaches host moment ⟨.answer value, moment.frames, moment.depth, final⟩ := by
  have harrives := arrives host moment
  rw [after_of_ok h] at harrives
  exact harrives

end Moment

end MonkeyLanguage
