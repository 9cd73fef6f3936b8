-- SUMMARY: The events of a run that can be traced, and the log that they go to.
import MonkeyLanguage.Value.Inspect

/-!
# Tracing

A run can leave a trace of what it does. Every event has a level, and it is
recorded if the level asked for is at least its own. At levels below one,
nothing is recorded.

The log is a file that comes into being with the first event. An event that is
recorded after the log was closed starts it anew.
-/

namespace MonkeyLanguage

/-- Something that happens in a run. -/
inductive TraceEvent where
  /-- A program with so many statements starts. -/
  | started (statements : Nat)
  /-- A program ends with an error. -/
  | failed (cause : RuntimeError)
  /-- A name is bound. -/
  | bound (name : String) (value : Value)
  /-- A closure is called with so many arguments. -/
  | called (parameters : List String) (count : Nat)
  /-- A built-in function is called with so many arguments. -/
  | calledBuiltin (builtin : Builtin) (count : Nat)
  /-- A condition is decided by a value. -/
  | decided (condition : Value)
  deriving Inhabited

namespace TraceEvent

/-- The lowest level at which an event is recorded. -/
def level : TraceEvent → Int
  | started _ => 1
  | failed _ => 1
  | bound .. => 2
  | called .. => 2
  | calledBuiltin .. => 2
  | decided _ => 3

/-- The line that an event makes in the log. -/
def line : TraceEvent → String
  | started statements => "run program: " ++ toString statements ++ " statements"
  | failed cause => "program error: " ++ cause.message
  | bound name value => "let " ++ name ++ " = " ++ value.inspect
  | called parameters count =>
    "call fn(" ++ Text.commaSeparated parameters ++ ") with " ++ toString count ++ " arguments"
  | calledBuiltin builtin count =>
    "call builtin " ++ builtin.name ++ " with " ++ toString count ++ " arguments"
  | decided condition =>
    "if condition " ++ condition.inspect ++ " -> " ++ if condition.isTruthy then "True" else "False"

end TraceEvent

/-- The log of a trace: its events since it was last opened, if it ever was. -/
structure TraceLog where
  events? : Option (Array TraceEvent) := none
  isOpen : Bool := false
  deriving Inhabited

namespace TraceLog

/-- The events in the log. -/
def events (log : TraceLog) : List TraceEvent :=
  (log.events?.map Array.toList).getD []

/-- Record an event, in a new log unless one is open. -/
def record (log : TraceLog) (event : TraceEvent) : TraceLog :=
  if log.isOpen then { log with events? := log.events?.map fun events => events.push event }
  else ⟨some #[event], true⟩

/-- Close the log. -/
def close (log : TraceLog) : TraceLog :=
  { log with isOpen := false }

/-- The text of the log, one line for each event, if there is a log. -/
def text? (log : TraceLog) : Option String :=
  log.events?.map fun events => String.join (events.toList.map fun event => event.line ++ "\n")

end TraceLog

end MonkeyLanguage
