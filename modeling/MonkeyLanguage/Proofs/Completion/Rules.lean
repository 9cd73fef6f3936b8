-- SUMMARY: Rules for how code completes: normally with a result, or left by a return or an error.
import MonkeyLanguage.Proofs.Run.Moment

/-!
# How code completes

Here a `return` is no value. Code either goes through normally, with a result, or it is left,
because of a `return` or of an error. Whatever is going on around code that is left is left in the
same way, up to the call or program that a `return` ends at. The rules say so construct by
construct: the first rules of a construct are for its parts going through, the rules whose names
end in `Exit` for one of its parts being left.

At most `depth` function bodies run inside each other; code that would need more has no
completion.
-/

namespace MonkeyLanguage

/-- How code is left before it has gone through. -/
inductive Exit where
  | returned (value : Value)
  | failed (cause : RuntimeError)

/-- How code completes: normally, with a result, or abruptly. -/
inductive Completion (α : Type) where
  | normal (result : α)
  | abrupt (exit : Exit)

namespace Completion

/-- What an operation completes with: the value that it computes, or the error that it is. -/
def computed : Value → Completion Value
  | .error cause => .abrupt (.failed cause)
  | value => .normal value

/-- What arrives where a `return` ends: the returned value counts as the result there. -/
def received : Completion Value → Completion Value
  | .abrupt (.returned value) => .normal value
  | completion => completion

end Completion

namespace Machine

/-- The machine after a `let` has bound a name. -/
def afterLet (host : Host) (scope : ScopeId) (name : String) (value : Value) (machine : Machine) :
    Machine :=
  let traced := machine.trace host.traceLevel (.bound name value)
  { traced with store := traced.store.bind scope name value }

/-- The machine at the start of a function body, with the arguments bound in a new scope inside
the one where the function was made. -/
def atBody (host : Host) (scope : ScopeId) (names : List String) (arguments : List Value)
    (machine : Machine) : Machine :=
  let traced := machine.trace host.traceLevel (.called names arguments.length)
  { traced with
    store := (traced.store.addScope (some scope)).bindAll traced.store.next
      (names.zip arguments) }

/-- The machine after a closure has been made. -/
def afterClosure (machine : Machine) : Machine :=
  { machine with closures := machine.closures + 1 }

/-- The machine after a call of a built-in function. -/
def afterBuiltin (host : Host) (builtin : Builtin) (arguments : List Value) (machine : Machine) :
    Machine :=
  { machine.trace host.traceLevel (.calledBuiltin builtin arguments.length) with
    console := (builtin.run arguments machine.console).2 }

end Machine

section

variable (host : Host)

mutual

/-- A node, worked on in a scope, completes. -/
inductive Completes : (depth : Nat) → ScopeId → Node → Machine → Completion Value → Machine → Prop
  | program {depth scope token statements machine completion final} :
      SequenceCompletes depth scope .null statements machine completion final →
      Completes depth scope (.program token statements) machine completion.received final
  | letStatement {depth scope token other name node machine value middle} :
      Completes depth scope node machine (.normal value) middle →
      Completes depth scope (.letStatement token (.identifier other name) node) machine
        (.normal value) (middle.afterLet host scope name value)
  | letExit {depth scope token name node machine exit final} :
      Completes depth scope node machine (.abrupt exit) final →
      Completes depth scope (.letStatement token name node) machine (.abrupt exit) final
  | returnStatement {depth scope token node machine value final} :
      Completes depth scope node machine (.normal value) final →
      Completes depth scope (.returnStatement token node) machine (.abrupt (.returned value)) final
  | returnExit {depth scope token node machine exit final} :
      Completes depth scope node machine (.abrupt exit) final →
      Completes depth scope (.returnStatement token node) machine (.abrupt exit) final
  | expressionStatement {depth scope token node machine completion final} :
      Completes depth scope node machine completion final →
      Completes depth scope (.expressionStatement token node) machine completion final
  | block {depth scope token statements machine completion final} :
      SequenceCompletes depth scope .null statements machine completion final →
      Completes depth scope (.block token statements) machine completion final
  | identifier {depth scope token name machine} :
      Completes depth scope (.identifier token name) machine
        (.computed (machine.store.valueOf scope name)) machine
  | integer {depth scope token value machine} :
      Completes depth scope (.integer token value) machine (.normal (.integer value)) machine
  | string {depth scope token text machine} :
      Completes depth scope (.string token text) machine (.normal (.string text)) machine
  | boolean {depth scope token value machine} :
      Completes depth scope (.boolean token value) machine (.normal (.boolean value)) machine
  | prefixed {depth scope token operator node machine right final} :
      Completes depth scope node machine (.normal right) final →
      Completes depth scope (.prefixed token operator node) machine
        (.computed (right.prefixed operator)) final
  | prefixedExit {depth scope token operator node machine exit final} :
      Completes depth scope node machine (.abrupt exit) final →
      Completes depth scope (.prefixed token operator node) machine (.abrupt exit) final
  | binary {depth scope token operator first second machine left middle right final} :
      Completes depth scope first machine (.normal left) middle →
      Completes depth scope second middle (.normal right) final →
      Completes depth scope (.binary token operator first second) machine
        (.computed (left.binary operator right host.repetitionLimit)) final
  | leftExit {depth scope token operator first second machine exit final} :
      Completes depth scope first machine (.abrupt exit) final →
      Completes depth scope (.binary token operator first second) machine (.abrupt exit) final
  | rightExit {depth scope token operator first second machine left middle exit final} :
      Completes depth scope first machine (.normal left) middle →
      Completes depth scope second middle (.abrupt exit) final →
      Completes depth scope (.binary token operator first second) machine (.abrupt exit) final
  | consequence {depth scope token condition consequence alternative machine value middle completion
      final} :
      Completes depth scope condition machine (.normal value) middle →
      value.isTruthy = true →
      Completes depth scope consequence (middle.trace host.traceLevel (.decided value))
        completion final →
      Completes depth scope (.conditional token condition consequence alternative) machine
        completion final
  | alternative {depth scope token condition consequence alternative machine value middle completion
      final} :
      Completes depth scope condition machine (.normal value) middle →
      value.isTruthy = false →
      Completes depth scope alternative (middle.trace host.traceLevel (.decided value))
        completion final →
      Completes depth scope (.conditional token condition consequence alternative) machine
        completion final
  | noAlternative {depth scope token condition consequence machine value middle} :
      Completes depth scope condition machine (.normal value) middle →
      value.isTruthy = false →
      Completes depth scope (.conditional token condition consequence .missing) machine
        (.normal .null) (middle.trace host.traceLevel (.decided value))
  | conditionExit {depth scope token condition consequence alternative machine exit final} :
      Completes depth scope condition machine (.abrupt exit) final →
      Completes depth scope (.conditional token condition consequence alternative) machine
        (.abrupt exit) final
  | function {depth scope token parameters body machine} :
      Completes depth scope (.function token parameters body) machine
        (.normal (.closure machine.closures parameters body scope)) machine.afterClosure
  | call {depth scope token callee nodes machine function middle arguments last completion final} :
      Completes depth scope callee machine (.normal function) middle →
      ItemsComplete depth scope nodes middle (.normal arguments) last →
      CallCompletes depth function arguments last completion final →
      Completes depth scope (.call token callee nodes) machine completion final
  | calleeExit {depth scope token callee nodes machine exit final} :
      Completes depth scope callee machine (.abrupt exit) final →
      Completes depth scope (.call token callee nodes) machine (.abrupt exit) final
  | argumentsExit {depth scope token callee nodes machine function middle exit final} :
      Completes depth scope callee machine (.normal function) middle →
      ItemsComplete depth scope nodes middle (.abrupt exit) final →
      Completes depth scope (.call token callee nodes) machine (.abrupt exit) final
  | array {depth scope token nodes machine elements final} :
      ItemsComplete depth scope nodes machine (.normal elements) final →
      Completes depth scope (.array token nodes) machine (.normal (.array elements)) final
  | arrayExit {depth scope token nodes machine exit final} :
      ItemsComplete depth scope nodes machine (.abrupt exit) final →
      Completes depth scope (.array token nodes) machine (.abrupt exit) final
  | hash {depth scope token pairs machine completion final} :
      PairsComplete depth scope [] pairs machine completion final →
      Completes depth scope (.hash token pairs) machine completion final
  | index {depth scope token first second machine target middle key final} :
      Completes depth scope first machine (.normal target) middle →
      Completes depth scope second middle (.normal key) final →
      Completes depth scope (.index token first second) machine (.computed (target.lookUp key))
        final
  | targetExit {depth scope token first second machine exit final} :
      Completes depth scope first machine (.abrupt exit) final →
      Completes depth scope (.index token first second) machine (.abrupt exit) final
  | keyExit {depth scope token first second machine target middle exit final} :
      Completes depth scope first machine (.normal target) middle →
      Completes depth scope second middle (.abrupt exit) final →
      Completes depth scope (.index token first second) machine (.abrupt exit) final

/-- Statements complete one after the other, and the first one that is left leaves them all. -/
inductive SequenceCompletes : (depth : Nat) → ScopeId → (last : Value) → List Node → Machine →
    Completion Value → Machine → Prop
  | done {depth scope last machine} :
      SequenceCompletes depth scope last [] machine (.normal last) machine
  | next {depth scope last statement rest machine value middle completion final} :
      Completes depth scope statement machine (.normal value) middle →
      SequenceCompletes depth scope value rest middle completion final →
      SequenceCompletes depth scope last (statement :: rest) machine completion final
  | exit {depth scope last statement rest machine exit final} :
      Completes depth scope statement machine (.abrupt exit) final →
      SequenceCompletes depth scope last (statement :: rest) machine (.abrupt exit) final

/-- Arguments or elements complete one after the other. -/
inductive ItemsComplete : (depth : Nat) → ScopeId → List Node → Machine →
    Completion (List Value) → Machine → Prop
  | done {depth scope machine} : ItemsComplete depth scope [] machine (.normal []) machine
  | next {depth scope node rest machine value middle values final} :
      Completes depth scope node machine (.normal value) middle →
      ItemsComplete depth scope rest middle (.normal values) final →
      ItemsComplete depth scope (node :: rest) machine (.normal (value :: values)) final
  | exit {depth scope node rest machine exit final} :
      Completes depth scope node machine (.abrupt exit) final →
      ItemsComplete depth scope (node :: rest) machine (.abrupt exit) final
  | restExit {depth scope node rest machine value middle exit final} :
      Completes depth scope node machine (.normal value) middle →
      ItemsComplete depth scope rest middle (.abrupt exit) final →
      ItemsComplete depth scope (node :: rest) machine (.abrupt exit) final

/-- The pairs of a hash complete one after the other, each key before its value. -/
inductive PairsComplete : (depth : Nat) → ScopeId → List (HashKey × Value) → List (Node × Node) →
    Machine → Completion Value → Machine → Prop
  | done {depth scope entries machine} :
      PairsComplete depth scope entries [] machine (.normal (.hash entries)) machine
  | next {depth scope entries first second rest machine key middle hashKey value last completion
      final} :
      Completes depth scope first machine (.normal key) middle →
      key.hashKey? = some hashKey →
      Completes depth scope second middle (.normal value) last →
      PairsComplete depth scope (Table.insert hashKey value entries) rest last completion final →
      PairsComplete depth scope entries ((first, second) :: rest) machine completion final
  | keyExit {depth scope entries first second rest machine exit final} :
      Completes depth scope first machine (.abrupt exit) final →
      PairsComplete depth scope entries ((first, second) :: rest) machine (.abrupt exit) final
  | unusable {depth scope entries first second rest machine key final} :
      Completes depth scope first machine (.normal key) final →
      key.hashKey? = none →
      PairsComplete depth scope entries ((first, second) :: rest) machine
        (.abrupt (.failed (.unusableKey key.type))) final
  | valueExit {depth scope entries first second rest machine key middle hashKey exit final} :
      Completes depth scope first machine (.normal key) middle →
      key.hashKey? = some hashKey →
      Completes depth scope second middle (.abrupt exit) final →
      PairsComplete depth scope entries ((first, second) :: rest) machine (.abrupt exit) final

/-- A call of a value completes. -/
inductive CallCompletes : (depth : Nat) → Value → List Value → Machine → Completion Value →
    Machine → Prop
  | wrongCount {depth identity parameters body scope arguments machine} :
      arguments.length ≠ parameters.length →
      CallCompletes depth (.closure identity parameters body scope) arguments machine
        (.abrupt (.failed (.wrongArgumentCount arguments.length parameters.length))) machine
  | closure {depth identity parameters body scope arguments names machine completion final} :
      arguments.length = parameters.length →
      Node.parameterNames parameters = .ok names →
      Completes depth machine.store.next body (machine.atBody host scope names arguments)
        completion final →
      CallCompletes (depth + 1) (.closure identity parameters body scope) arguments machine
        completion.received final
  | builtin {depth builtin arguments machine} :
      CallCompletes depth (.builtin builtin) arguments machine
        (.computed (builtin.run arguments machine.console).1)
        (machine.afterBuiltin host builtin arguments)
  | notAFunction {depth function arguments machine} :
      function.type ≠ .function → function.type ≠ .builtin →
      CallCompletes depth function arguments machine
        (.abrupt (.failed (.notAFunction function.type))) machine

end

end

end MonkeyLanguage
