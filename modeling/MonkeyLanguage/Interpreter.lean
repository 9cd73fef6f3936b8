-- SUMMARY: Running programs on a machine, with settings, and the outcome of a run.
import MonkeyLanguage.Evaluation
import MonkeyLanguage.Parse

/-!
# Interpreter

An interpreter is a machine together with settings that do not change while it
works. Each piece of work it does has an outcome: a result or a fault, what was
written to the console on the way, and the machine to go on with.
-/

namespace MonkeyLanguage

/-- The settings of an interpreter. -/
structure Settings extends Host where
  /-- How many function bodies may run inside each other. Nothing else is limited: parsing,
  rendering and inspecting are taken to have all the room they need, however deep trees and values
  are nested. -/
  depth : Nat := 300
  deriving Inhabited

/-- The result of a piece of work, and the machine after it. The console of that machine holds
what was written during the work. -/
structure Outcome (α : Type) where
  result : Except Fault α
  machine : Machine

/-- What was written during the work. -/
def Outcome.written {α : Type} (outcome : Outcome α) : String :=
  outcome.machine.console.written

/-- Do a piece of work on a machine, starting with an empty console. -/
def Eval.perform {α : Type} (work : Eval α) (machine : Machine) : Outcome α :=
  match work { machine with console := .empty } with
  | .ok value machine => ⟨.ok value, machine⟩
  | .error fault machine => ⟨.error fault, machine⟩

/-- The scope that programs run in unless they are given another one. -/
def globalScope : ScopeId := 0

/-- A machine on which nothing has run. It has the global scope only. -/
def Machine.initial : Machine :=
  { store := Store.empty.addScope none }

namespace Settings

/-- Call a function with arguments. -/
def call (settings : Settings) : Call :=
  apply settings.toHost settings.depth

/-- Compute the value of a node in a scope. -/
def evaluate (settings : Settings) (scope : ScopeId) (node : Node) : Eval Value :=
  MonkeyLanguage.evaluate settings.toHost settings.call scope node

/-- Run a program in a scope. -/
def run (settings : Settings) (scope : ScopeId) (program : Node) : Eval Value := do
  Eval.trace settings.traceLevel (.started program.statements.length)
  let value ← settings.evaluate scope program
  match value with
  | .error cause => Eval.trace settings.traceLevel (.failed cause)
  | _ => pure ()
  pure value

/-- Run a source text on a machine of its own, unless it has parse errors. -/
def runSource (settings : Settings) (source : String) : Except (List ParseError) (Outcome Value) :=
  let parse := Parse.ofSource source
  if parse.errors.isEmpty then
    .ok ((settings.run globalScope parse.program).perform .initial)
  else
    .error parse.errors

end Settings

/-- The function that a source text stands for, made in a scope of its own and without a trace. -/
def Eval.functionOfSource (source : String) : Eval Value := do
  let scope ← Eval.openScope none
  Settings.evaluate {} scope (Parse.ofSource source).program

end MonkeyLanguage
