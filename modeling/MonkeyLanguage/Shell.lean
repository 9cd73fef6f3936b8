-- SUMMARY: Executing pieces of source text, and interactive sessions made of lines.
import MonkeyLanguage.Interpreter
import MonkeyLanguage.Text.Blank

/-!
# Shell

The shell executes source text piece by piece and shows the results. What it
shows is a list of entries, in which the texts that programs write are told apart
from prompts, results and parse errors. All pieces of a session run in one scope,
so later ones see the bindings of earlier ones.
-/

namespace MonkeyLanguage.Shell

/-- Something that the shell shows. -/
inductive Entry where
  /-- The prompt for the next line. -/
  | prompt
  /-- A text that a program wrote. -/
  | written (text : String)
  /-- A parse error of a piece that is therefore not run. -/
  | parseError (error : ParseError)
  /-- The value of a piece that was run. -/
  | result (value : Value)

/-- How an entry is shown. -/
def Entry.text : Entry → String
  | prompt => ">> "
  | written text => text
  | parseError error => "\t" ++ error.message ++ "\n"
  | result value => value.inspect ++ "\n"

/-- How entries are shown, one after the other. -/
def transcript (entries : List Entry) : String :=
  String.join (entries.map Entry.text)

/-- How the execution of a piece ends. -/
inductive Ending where
  /-- It ran. -/
  | finished
  /-- It has parse errors and did not run. -/
  | notRun
  /-- It stopped with a fault. -/
  | faulted (fault : Fault)
  deriving DecidableEq

/-- What the execution of some source text shows, the machine after it, and how it ends. -/
structure Execution where
  entries : List Entry
  machine : Machine
  ending : Ending

/-- Execute a piece of source text in a scope. -/
def execute (settings : Settings) (scope : ScopeId) (source : String) (machine : Machine) :
    Execution :=
  let parse := Parse.ofSource source
  if parse.errors.isEmpty then
    let outcome := (settings.run scope parse.program).perform machine
    let written := outcome.machine.console.texts.toList.map Entry.written
    match outcome.result with
    | .ok value => ⟨written ++ [.result value], outcome.machine, .finished⟩
    | .error fault => ⟨written, outcome.machine, .faulted fault⟩
  else
    ⟨parse.errors.map Entry.parseError, machine, .notRun⟩

/-- Execute one line of a session. Blank lines do nothing. -/
def executeLine (settings : Settings) (scope : ScopeId) (line : String) (machine : Machine) :
    Execution :=
  if Text.allBlank line then ⟨[], machine, .finished⟩
  else execute settings scope line machine

/-- Execute the lines of a session, with a prompt before each of them and a last one for the end
of the input. A fault ends the session. -/
def executeLines (settings : Settings) (scope : ScopeId) : List String → Machine → Execution
  | [], machine => ⟨[.prompt], machine, .finished⟩
  | line :: rest, machine =>
    let first := executeLine settings scope line machine
    match first.ending with
    | .faulted fault => ⟨.prompt :: first.entries, first.machine, .faulted fault⟩
    | _ =>
      let others := executeLines settings scope rest first.machine
      { others with entries := .prompt :: first.entries ++ others.entries }

/-- Cut a text into lines. Each line keeps the line feed at its end, which the last one may lack. -/
def lines : List Char → List (List Char)
  | [] => []
  | c :: rest =>
    if c = '\n' then [c] :: lines rest
    else
      match lines rest with
      | [] => [[c]]
      | line :: others => (c :: line) :: others

/-- Run a session on an input, in a new scope of its own. -/
def session (settings : Settings) (input : String) (machine : Machine) : Execution :=
  let scope := machine.store.next
  let machine := { machine with store := machine.store.addScope none }
  executeLines settings scope ((lines input.toList).map String.ofList) machine

end MonkeyLanguage.Shell
