-- SUMMARY: Evaluation of program trees and calls of functions.
import MonkeyLanguage.Machine
import MonkeyLanguage.Value.Operator

/-!
# Evaluation

`evaluate` computes the value of a node in a scope. It recurses on the tree; what
a call of a function does is a parameter of it. `apply` supplies that parameter:
it runs the body of a closure with calls that may nest one level less.

An error hands itself on from every place that computes a value. A returned
value is handed on by blocks and received by the call or the program around them.
-/

namespace MonkeyLanguage

/-- What a run finds around it and cannot change. -/
structure Host where
  /-- The level of the trace; there is none below level one. -/
  traceLevel : Int := 0
  /-- How many characters a repeated string may have before the memory is full. -/
  repetitionLimit : Nat := Value.usualRepetitionLimit
  deriving Inhabited

/-- What a call of a function with arguments does. -/
abbrev Call := Value → List Value → Eval Value

/-- The name that a node binds. -/
def Node.boundName : Node → Except Fault String
  | identifier _ name => .ok name
  | _ => .error .notAName

/-- The names of a list of parameters. -/
def Node.parameterNames (parameters : List Node) : Except Fault (List String) :=
  parameters.mapM Node.boundName

/-- The value of a name: of its nearest binding, else of the built-in function of that name. -/
def Store.valueOf (store : Store) (scope : ScopeId) (name : String) : Value :=
  match store.find? scope name with
  | some value => value
  | none =>
    match Builtin.ofName? name with
    | some builtin => .builtin builtin
    | none => .error (.unknownName name)

section

variable (host : Host) (call : Call) (scope : ScopeId)

mutual

/-- The value of a node. -/
def evaluate : Node → Eval Value
  | .program _ statements => do
    let value ← evaluateSequence .null statements
    pure value.received
  | .letStatement _ name value =>
    Eval.withValue (evaluate value) fun value => do
      let name ← liftExcept name.boundName
      Eval.trace host.traceLevel (.bound name value)
      Eval.bindName scope name value
      pure value
  | .returnStatement _ value =>
    Eval.withValue (evaluate value) fun value => pure (.returned value)
  | .expressionStatement _ value => evaluate value
  | .block _ statements => evaluateSequence .null statements
  | .identifier _ name => do
    let machine ← get
    pure (machine.store.valueOf scope name)
  | .integer _ value => pure (.integer value)
  | .string _ text => pure (.string text)
  | .boolean _ value => pure (.boolean value)
  | .prefixed _ operator right =>
    Eval.withValue (evaluate right) fun right => pure (right.prefixed operator)
  | .binary _ operator left right =>
    Eval.withValue (evaluate left) fun left =>
      Eval.withValue (evaluate right) fun right =>
        pure (left.binary operator right host.repetitionLimit)
  | .conditional _ condition consequence alternative =>
    Eval.withValue (evaluate condition) fun condition => do
      Eval.trace host.traceLevel (.decided condition)
      if condition.isTruthy then evaluate consequence
      else
        match alternative with
        | .missing => pure .null
        | alternative => evaluate alternative
  | .function _ parameters body => Eval.makeClosure parameters body scope
  | .call _ callee arguments =>
    Eval.withValue (evaluate callee) fun function => do
      match ← evaluateAll arguments with
      | .ok arguments => call function arguments
      | .error cause => pure (.error cause)
  | .array _ elements => do
    match ← evaluateAll elements with
    | .ok elements => pure (.array elements)
    | .error cause => pure (.error cause)
  | .hash _ pairs => evaluatePairs [] pairs
  | .index _ target key =>
    Eval.withValue (evaluate target) fun target =>
      Eval.withValue (evaluate key) fun key => pure (target.lookUp key)
  | .missing => throw .missingNode
  | .foreign => throw .foreignNode

/-- The value of the last of some statements, or of the first that is a signal. Without
statements it is the value given. -/
def evaluateSequence (last : Value) : List Node → Eval Value
  | [] => pure last
  | statement :: rest => do
    let value ← evaluate statement
    if value.isSignal then pure value else evaluateSequence value rest

/-- The values of several nodes, or the first error among them. -/
def evaluateAll : List Node → Eval (Except RuntimeError (List Value))
  | [] => pure (.ok [])
  | node :: rest => do
    match ← evaluate node with
    | .error cause => pure (.error cause)
    | value =>
      match ← evaluateAll rest with
      | .ok values => pure (.ok (value :: values))
      | .error cause => pure (.error cause)

/-- The hash that pairs of keys and values add up to. -/
def evaluatePairs (entries : List (HashKey × Value)) : List (Node × Node) → Eval Value
  | [] => pure (.hash entries)
  | (key, value) :: rest =>
    Eval.withValue (evaluate key) fun key =>
      match key.hashKey? with
      | none => pure (.error (.unusableKey key.type))
      | some hashKey =>
        Eval.withValue (evaluate value) fun value =>
          evaluatePairs (Table.insert hashKey value entries) rest

end

end

/-- Call a function, given how bodies are run. The arguments are bound in a new scope inside
the one where the function was made. -/
def applyWith (host : Host) (runBody : ScopeId → Node → Eval Value) : Call
  | .closure _ parameters body scope, arguments => do
    if arguments.length ≠ parameters.length then
      pure (.error (.wrongArgumentCount arguments.length parameters.length))
    else
      let names ← liftExcept (Node.parameterNames parameters)
      Eval.trace host.traceLevel (.called names arguments.length)
      let inner ← Eval.openScope (some scope)
      Eval.bindNames inner (names.zip arguments)
      let value ← runBody inner body
      pure value.received
  | .builtin builtin, arguments => do
    Eval.trace host.traceLevel (.calledBuiltin builtin arguments.length)
    Eval.runBuiltin builtin arguments
  | other, _ => pure (.error (.notAFunction other.type))

/-- Call a function, with at most `depth` bodies running inside each other. -/
def apply (host : Host) : (depth : Nat) → Call
  | 0 => applyWith host fun _ _ => throw .recursionLimit
  | depth + 1 => applyWith host (evaluate host (apply host depth))

end MonkeyLanguage
