-- SUMMARY: A run seen step by step, as a machine with a stack of places that wait for values.
import Mathlib.Logic.Relation
import MonkeyLanguage.Interpreter

/-!
# Moments of a run

`evaluate` tells what comes out of a node, but not what happens on the way. Here a run is cut
into moments. A moment says what is being worked on, which places wait for the outcome, and how
the machine stands. `step` leads from each moment to the next one.

A place that waits is a frame. What a frame does with a value that arrives is what `evaluate`
does after the evaluation inside it has returned. That the two agree is shown in
`MonkeyLanguage.Proofs.Run.Arrival`.
-/

namespace MonkeyLanguage

/-- What the values of several nodes are for. -/
inductive Collector where
  | arguments (function : Value)
  | elements

/-- A place that waits for a value, with all that it needs to go on. -/
inductive Frame where
  /-- A program, while one of its statements is evaluated. -/
  | receive
  /-- The statements after the one that is evaluated. -/
  | next (scope : ScopeId) (rest : List Node)
  | bind (scope : ScopeId) (name : Node)
  /-- A `return` statement, while its value is evaluated. -/
  | send
  | operand (operator : String)
  | left (scope : ScopeId) (operator : String) (right : Node)
  | right (operator : String) (left : Value)
  | condition (scope : ScopeId) (consequence alternative : Node)
  /-- A conditional, while the block that it chose is evaluated. -/
  | branch
  | callee (scope : ScopeId) (arguments : List Node)
  /-- An argument or element, with those before it and the nodes after it. -/
  | item (scope : ScopeId) (collector : Collector) (before : List Value) (rest : List Node)
  | key (scope : ScopeId) (entries : List (HashKey × Value)) (value : Node)
    (rest : List (Node × Node))
  | entry (scope : ScopeId) (entries : List (HashKey × Value)) (key : HashKey)
    (rest : List (Node × Node))
  | target (scope : ScopeId) (key : Node)
  | index (target : Value)
  /-- A call, while the body of its function is evaluated. -/
  | body

/-- Whether a frame goes on with the value itself, so that an error must not get there. The other
frames only hand values up. -/
def Frame.wantsValue : Frame → Bool
  | receive => false
  | next .. => false
  | branch => false
  | body => false
  | _ => true

/-- What is being worked on. -/
inductive Control where
  | evaluate (scope : ScopeId) (node : Node)
  | call (function : Value) (arguments : List Value)
  | answer (value : Value)
  | fault (fault : Fault)

/-- A moment of a run: what is being worked on, the frames that wait for it, the innermost one
first, and how many more function bodies may run inside each other. -/
structure Moment where
  control : Control
  frames : List Frame
  depth : Nat
  machine : Machine

/-- The machine after an event that is recorded if the level asks for it. -/
def Machine.trace (level : Int) (event : TraceEvent) (machine : Machine) : Machine :=
  if event.level ≤ level then { machine with log := machine.log.record event } else machine

namespace Eval

/-- Bind the name that a node stands for. -/
def bindNode (host : Host) (scope : ScopeId) (name : Node) (value : Value) : Eval Value := do
  let name ← liftExcept name.boundName
  Eval.trace host.traceLevel (.bound name value)
  Eval.bindName scope name value
  pure value

/-- Open the scope of a call and bind the arguments in it. -/
def enter (host : Host) (parameters : List Node) (scope : ScopeId) (arguments : List Value) :
    Eval ScopeId := do
  let names ← liftExcept (Node.parameterNames parameters)
  Eval.trace host.traceLevel (.called names arguments.length)
  let inner ← Eval.openScope (some scope)
  Eval.bindNames inner (names.zip arguments)
  pure inner

/-- Call a built-in function. -/
def callBuiltin (host : Host) (builtin : Builtin) (arguments : List Value) : Eval Value := do
  Eval.trace host.traceLevel (.calledBuiltin builtin arguments.length)
  Eval.runBuiltin builtin arguments

end Eval

namespace Moment

/-! ## Steps -/

section

variable (host : Host) (frames : List Frame) (depth : Nat) (machine : Machine)

/-- The moment after a computation, with its value or fault. -/
def after (computation : Eval Value) : Moment :=
  match computation machine with
  | .ok value machine => ⟨.answer value, frames, depth, machine⟩
  | .error fault machine => ⟨.fault fault, frames, depth, machine⟩

/-- Turn to the first of some statements; without any, answer with the value given. -/
def sequence (scope : ScopeId) (last : Value) : List Node → Moment
  | [] => ⟨.answer last, frames, depth, machine⟩
  | statement :: rest => ⟨.evaluate scope statement, .next scope rest :: frames, depth, machine⟩

/-- Turn to the next argument or element; after the last one, use them. -/
def collect (scope : ScopeId) (collector : Collector) (before : List Value) :
    List Node → Moment
  | [] =>
    match collector with
    | .arguments function => ⟨.call function before, frames, depth, machine⟩
    | .elements => ⟨.answer (.array before), frames, depth, machine⟩
  | node :: rest =>
    ⟨.evaluate scope node, .item scope collector before rest :: frames, depth, machine⟩

/-- Turn to the next pair of a hash; after the last one, answer with the hash. -/
def gather (scope : ScopeId) (entries : List (HashKey × Value)) : List (Node × Node) → Moment
  | [] => ⟨.answer (.hash entries), frames, depth, machine⟩
  | (key, value) :: rest =>
    ⟨.evaluate scope key, .key scope entries value rest :: frames, depth, machine⟩

/-- Turn to the alternative of a conditional, which may be missing. -/
def otherwise (scope : ScopeId) : Node → Moment
  | .missing => ⟨.answer .null, frames, depth, machine⟩
  | alternative => ⟨.evaluate scope alternative, .branch :: frames, depth, machine⟩

/-- Begin with a node. -/
def start (scope : ScopeId) : Node → Moment
  | .program _ statements => sequence (.receive :: frames) depth machine scope .null statements
  | .letStatement _ name value =>
    ⟨.evaluate scope value, .bind scope name :: frames, depth, machine⟩
  | .returnStatement _ value => ⟨.evaluate scope value, .send :: frames, depth, machine⟩
  | .expressionStatement _ value => ⟨.evaluate scope value, frames, depth, machine⟩
  | .block _ statements => sequence frames depth machine scope .null statements
  | .identifier _ name => ⟨.answer (machine.store.valueOf scope name), frames, depth, machine⟩
  | .integer _ value => ⟨.answer (.integer value), frames, depth, machine⟩
  | .string _ text => ⟨.answer (.string text), frames, depth, machine⟩
  | .boolean _ value => ⟨.answer (.boolean value), frames, depth, machine⟩
  | .prefixed _ operator right =>
    ⟨.evaluate scope right, .operand operator :: frames, depth, machine⟩
  | .binary _ operator left right =>
    ⟨.evaluate scope left, .left scope operator right :: frames, depth, machine⟩
  | .conditional _ condition consequence alternative =>
    ⟨.evaluate scope condition, .condition scope consequence alternative :: frames, depth, machine⟩
  | .function _ parameters body =>
    after frames depth machine (Eval.makeClosure parameters body scope)
  | .call _ callee arguments =>
    ⟨.evaluate scope callee, .callee scope arguments :: frames, depth, machine⟩
  | .array _ elements => collect frames depth machine scope .elements [] elements
  | .hash _ pairs => gather frames depth machine scope [] pairs
  | .index _ target key => ⟨.evaluate scope target, .target scope key :: frames, depth, machine⟩
  | .missing => ⟨.fault .missingNode, frames, depth, machine⟩
  | .foreign => ⟨.fault .foreignNode, frames, depth, machine⟩

/-- Run the body of a function, if there is depth left. -/
def runBody (inner : ScopeId) (body : Node) : Nat → Moment
  | 0 => ⟨.fault .recursionLimit, frames, 0, machine⟩
  | depth + 1 => ⟨.evaluate inner body, .body :: frames, depth, machine⟩

/-- Begin with a call. -/
def enter (arguments : List Value) : Value → Moment
  | .closure _ parameters body scope =>
    if arguments.length ≠ parameters.length then
      ⟨.answer (.error (.wrongArgumentCount arguments.length parameters.length)), frames, depth,
        machine⟩
    else
      match Eval.enter host parameters scope arguments machine with
      | .ok inner machine => runBody frames machine inner body depth
      | .error fault machine => ⟨.fault fault, frames, depth, machine⟩
  | .builtin builtin => after frames depth machine (Eval.callBuiltin host builtin arguments)
  | other => ⟨.answer (.error (.notAFunction other.type)), frames, depth, machine⟩

/-- Go on with a value that arrives at a frame. -/
def resume (value : Value) : Frame → Moment
  | .receive => ⟨.answer value.received, frames, depth, machine⟩
  | .next scope rest =>
    if value.isSignal then ⟨.answer value, frames, depth, machine⟩
    else sequence frames depth machine scope value rest
  | .bind scope name => after frames depth machine (Eval.bindNode host scope name value)
  | .send => ⟨.answer (.returned value), frames, depth, machine⟩
  | .operand operator => ⟨.answer (value.prefixed operator), frames, depth, machine⟩
  | .left scope operator right =>
    ⟨.evaluate scope right, .right operator value :: frames, depth, machine⟩
  | .right operator left =>
    ⟨.answer (left.binary operator value host.repetitionLimit), frames, depth, machine⟩
  | .condition scope consequence alternative =>
    if value.isTruthy then
      ⟨.evaluate scope consequence, .branch :: frames, depth,
        machine.trace host.traceLevel (.decided value)⟩
    else otherwise frames depth (machine.trace host.traceLevel (.decided value)) scope alternative
  | .branch => ⟨.answer value, frames, depth, machine⟩
  | .callee scope arguments => collect frames depth machine scope (.arguments value) [] arguments
  | .item scope collector before rest =>
    collect frames depth machine scope collector (before ++ [value]) rest
  | .key scope entries node rest =>
    match value.hashKey? with
    | none => ⟨.answer (.error (.unusableKey value.type)), frames, depth, machine⟩
    | some key => ⟨.evaluate scope node, .entry scope entries key rest :: frames, depth, machine⟩
  | .entry scope entries key rest =>
    gather frames depth machine scope (Table.insert key value entries) rest
  | .target scope key => ⟨.evaluate scope key, .index value :: frames, depth, machine⟩
  | .index target => ⟨.answer (target.lookUp value), frames, depth, machine⟩
  | .body => ⟨.answer value.received, frames, depth + 1, machine⟩

/-- Go on with a value that arrives at a frame, past the frame if that wants no errors. -/
def arrive (value : Value) (frame : Frame) : Moment :=
  if frame.wantsValue && value.isError then ⟨.answer value, frames, depth, machine⟩
  else resume host frames depth machine value frame

/-- Leave a frame because of a fault. -/
def unwind (fault : Fault) : Frame → Moment
  | .body => ⟨.fault fault, frames, depth + 1, machine⟩
  | _ => ⟨.fault fault, frames, depth, machine⟩

end

/-- The moment after a moment. There is none after a value or a fault that no frame waits for. -/
def step (host : Host) : Moment → Option Moment
  | ⟨.evaluate scope node, frames, depth, machine⟩ => some (start frames depth machine scope node)
  | ⟨.call function arguments, frames, depth, machine⟩ =>
    some (enter host frames depth machine arguments function)
  | ⟨.answer value, frame :: frames, depth, machine⟩ =>
    some (arrive host frames depth machine value frame)
  | ⟨.fault fault, frame :: frames, depth, machine⟩ =>
    some (unwind frames depth machine fault frame)
  | ⟨.answer _, [], _, _⟩ => none
  | ⟨.fault _, [], _, _⟩ => none

/-- One moment comes after another, at once or later, or is the same. -/
abbrev Reaches (host : Host) : Moment → Moment → Prop :=
  Relation.ReflTransGen fun moment next => moment.step host = some next

/-! ## Turning to what is next

The machine stays as it is. -/

section

variable {frames : List Frame} {depth : Nat} {machine : Machine}

theorem machine_sequence (scope : ScopeId) (last : Value) (statements : List Node) :
    (sequence frames depth machine scope last statements).machine = machine := by
  cases statements <;> rfl

theorem machine_collect (scope : ScopeId) (collector : Collector) (before : List Value)
    (nodes : List Node) :
    (collect frames depth machine scope collector before nodes).machine = machine := by
  cases nodes <;> cases collector <;> rfl

theorem machine_gather (scope : ScopeId) (entries : List (HashKey × Value))
    (pairs : List (Node × Node)) :
    (gather frames depth machine scope entries pairs).machine = machine := by
  cases pairs <;> rfl

theorem machine_otherwise (scope : ScopeId) (alternative : Node) :
    (otherwise frames depth machine scope alternative).machine = machine := by
  cases alternative <;> rfl

theorem machine_runBody (inner : ScopeId) (body : Node) (depth : Nat) :
    (runBody frames machine inner body depth).machine = machine := by
  cases depth <;> rfl

end

/-! ## The ways of a step -/

theorem enter_eq {host : Host} {machine : Machine} (parameters : List Node) (scope : ScopeId)
    (arguments : List Value) :
    Eval.enter host parameters scope arguments machine =
      match Node.parameterNames parameters with
      | .ok names =>
        let traced := machine.trace host.traceLevel (.called names arguments.length)
        .ok traced.store.next
          { traced with
            store := (traced.store.addScope (some scope)).bindAll traced.store.next
              (names.zip arguments) }
      | .error fault => .error fault machine := by
  unfold Eval.enter
  cases Node.parameterNames parameters <;> rfl

/-- The ways in which a call can begin, by the function and the depth that is left. -/
inductive Enters (host : Host) (frames : List Frame) (machine : Machine) (arguments : List Value) :
    Value → Nat → Moment → Prop where
  | refused (function : Value) (depth : Nat) (cause : RuntimeError) :
      Enters host frames machine arguments function depth
        ⟨.answer (.error cause), frames, depth, machine⟩
  | builtin (builtin : Builtin) (depth : Nat) :
      Enters host frames machine arguments (.builtin builtin) depth
        (after frames depth machine (Eval.callBuiltin host builtin arguments))
  | unnamed (function : Value) (depth : Nat) (fault : Fault) :
      Enters host frames machine arguments function depth ⟨.fault fault, frames, depth, machine⟩
  | exhausted {identity : Nat} {parameters : List Node} {body : Node} {scope inner : ScopeId}
      {final : Machine}
      (henter : Eval.enter host parameters scope arguments machine = .ok inner final) :
      Enters host frames machine arguments (.closure identity parameters body scope) 0
        ⟨.fault .recursionLimit, frames, 0, final⟩
  | body {identity : Nat} {parameters : List Node} {body : Node} {scope inner : ScopeId}
      {final : Machine} {depth : Nat}
      (henter : Eval.enter host parameters scope arguments machine = .ok inner final) :
      Enters host frames machine arguments (.closure identity parameters body scope) (depth + 1)
        ⟨.evaluate inner body, .body :: frames, depth, final⟩

theorem enters (host : Host) (frames : List Frame) (depth : Nat) (machine : Machine)
    (arguments : List Value) (function : Value) :
    Enters host frames machine arguments function depth
      (enter host frames depth machine arguments function) := by
  cases function with
  | closure identity parameters body scope =>
      rw [enter]
      split
      · exact .refused ..
      · cases henter : Eval.enter host parameters scope arguments machine with
        | ok inner final =>
            cases depth with
            | zero => exact .exhausted henter
            | succ depth => exact .body henter
        | error fault final =>
            rw [enter_eq] at henter
            cases hnames : Node.parameterNames parameters with
            | ok names => simp only [hnames] at henter; cases henter
            | error cause =>
                simp only [hnames] at henter
                cases henter
                exact .unnamed ..
  | builtin builtin => exact .builtin ..
  | _ => exact .refused ..

/-- The ways in which a step can go. -/
inductive Turns (host : Host) : Moment → Moment → Prop where
  | start (scope : ScopeId) (node : Node) (frames : List Frame) (depth : Nat) (machine : Machine) :
      Turns host ⟨.evaluate scope node, frames, depth, machine⟩
        (start frames depth machine scope node)
  | enter {function : Value} {arguments : List Value} {frames : List Frame} {depth : Nat}
      {machine : Machine} {next : Moment}
      (henters : Enters host frames machine arguments function depth next) :
      Turns host ⟨.call function arguments, frames, depth, machine⟩ next
  | past {value : Value} {frame : Frame} (frames : List Frame) (depth : Nat) (machine : Machine)
      (hwants : frame.wantsValue = true) (herror : value.isError = true) :
      Turns host ⟨.answer value, frame :: frames, depth, machine⟩
        ⟨.answer value, frames, depth, machine⟩
  | resume (value : Value) (frame : Frame) (frames : List Frame) (depth : Nat) (machine : Machine)
      (hpasses : frame.wantsValue = true → value.isError = false) :
      Turns host ⟨.answer value, frame :: frames, depth, machine⟩
        (resume host frames depth machine value frame)
  | unwind (fault : Fault) (frame : Frame) (frames : List Frame) (depth rest : Nat)
      (machine : Machine) :
      Turns host ⟨.fault fault, frame :: frames, depth, machine⟩
        ⟨.fault fault, frames, rest, machine⟩

theorem turns_of_step {host : Host} {moment next : Moment} (h : moment.step host = some next) :
    Turns host moment next := by
  obtain ⟨control, frames, depth, machine⟩ := moment
  cases control with
  | evaluate scope node =>
      obtain rfl := Option.some.inj h
      exact .start ..
  | call function arguments =>
      obtain rfl := Option.some.inj h
      exact .enter (enters ..)
  | answer value =>
      cases frames with
      | nil => cases h
      | cons frame frames =>
          obtain rfl := Option.some.inj h
          unfold arrive
          split
          case isTrue hpast =>
            obtain ⟨hwants, herror⟩ := Bool.and_eq_true_iff.1 hpast
            exact .past frames depth machine hwants herror
          case isFalse hpasses =>
            refine .resume value frame frames depth machine fun hwants => ?_
            simpa [hwants] using hpasses
  | fault fault =>
      cases frames with
      | nil => cases h
      | cons frame frames =>
          obtain rfl := Option.some.inj h
          cases frame <;> exact .unwind ..

end Moment

end MonkeyLanguage
