-- SUMMARY: The state of a run, faults, and computations over both.
import MonkeyLanguage.Builtin.Run
import MonkeyLanguage.Store
import MonkeyLanguage.Trace

/-!
# Machine

The machine holds all that a run can change: the scopes, the number of closures
made, the console and the trace. A computation either yields a result or stops
with a fault, and what it changed before a fault stays changed.

Faults are not errors of the language. No program can see them.
-/

namespace MonkeyLanguage

/-- Why a run stops without a value. -/
inductive Fault where
  /-- Calls are nested deeper than allowed. -/
  | recursionLimit
  /-- A node is not there. -/
  | missingNode
  /-- A node is no node of the language. -/
  | foreignNode
  /-- Something other than a name stands where a name is bound. -/
  | notAName
  deriving DecidableEq, Inhabited

/-- The message of a fault. -/
def Fault.message : Fault → String
  | recursionLimit => "maximum recursion depth exceeded"
  | missingNode => "cannot evaluate node of type NoneType"
  | foreignNode => "cannot evaluate node of type object"
  | notAName => "cannot bind a node that is not a name"

/-- The state of a run. -/
structure Machine where
  store : Store := .empty
  /-- The number of closures made so far, which is the identity of the next one. -/
  closures : Nat := 0
  console : Console := .empty
  log : TraceLog := {}
  deriving Inhabited

/-- A computation on the machine. -/
abbrev Eval := EStateM Fault Machine

namespace Eval

/-- Open a scope and yield its number. -/
def openScope (outer : Option ScopeId) : Eval ScopeId :=
  modifyGet fun machine =>
    (machine.store.next, { machine with store := machine.store.addScope outer })

/-- Bind a name in a scope. -/
def bindName (scope : ScopeId) (name : String) (value : Value) : Eval Unit :=
  modify fun machine => { machine with store := machine.store.bind scope name value }

/-- Bind names to values in a scope, one after the other. -/
def bindNames (scope : ScopeId) (entries : List (String × Value)) : Eval Unit :=
  modify fun machine => { machine with store := machine.store.bindAll scope entries }

/-- Make a closure, with an identity of its own. -/
def makeClosure (parameters : List Node) (body : Node) (scope : ScopeId) : Eval Value :=
  modifyGet fun machine =>
    (.closure machine.closures parameters body scope,
      { machine with closures := machine.closures + 1 })

/-- Run a built-in function on the console. -/
def runBuiltin (builtin : Builtin) (arguments : List Value) : Eval Value :=
  modifyGet fun machine =>
    let (value, console) := builtin.run arguments machine.console
    (value, { machine with console })

/-- Record an event if the level asks for it. -/
def trace (level : Int) (event : TraceEvent) : Eval Unit :=
  modify fun machine =>
    if event.level ≤ level then { machine with log := machine.log.record event } else machine

/-- Go on with a value unless it is an error, which is handed on as it is. -/
def withValue (computation : Eval Value) (next : Value → Eval Value) : Eval Value := do
  let value ← computation
  if value.isError then pure value else next value

end Eval

end MonkeyLanguage
