-- SUMMARY: What a command line does: run a file, print its tree, or start a session.
import MonkeyLanguage.CommandLine.Options
import MonkeyLanguage.CommandLine.Path
import MonkeyLanguage.Shell

/-!
# Command line

A command line is carried out on a view of the disk and an input text, and what
comes of it is a report: texts for both output channels, an exit code, and the
text of the trace if there is one.
-/

namespace MonkeyLanguage.CommandLine

/-- What a file on disk holds. -/
inductive FileContent where
  | text (source : String)
  /-- Bytes that encode no text. -/
  | notText
  deriving DecidableEq, Inhabited

/-- The files on disk, by normal path. -/
abbrev Disk := String → Option FileContent

/-- What comes of a command line. -/
structure Report where
  /-- The exit code; there is none if the program file is no text or the host does not take the
  limit on calls. -/
  exit? : Option Nat
  output : String := ""
  errorOutput : String := ""
  /-- The normal path and the text of the trace, if there is one. -/
  trace? : Option (String × String) := none

/-- The lines that a session is opened with. -/
def greeting (user : String) : String :=
  "Hello " ++ user ++ "! this is the Monkey programming language!\n" ++
    "Feel free to type in commands\n"

/-- Write a line feed wherever a line ends, be it by a carriage return, by a line feed, or by
the one behind the other. -/
def unifyLineEnds : List Char → List Char
  | [] => []
  | '\r' :: '\n' :: rest => '\n' :: unifyLineEnds rest
  | '\r' :: rest => '\n' :: unifyLineEnds rest
  | c :: rest => c :: unifyLineEnds rest

/-- The settings that options ask for. Each function body that is running counts once towards the
limit. -/
def Options.settings (options : Options) : Settings :=
  { traceLevel := options.verbosity, depth := options.recursionLimit.toNat }

/-- An explanation of the command line. -/
def helpText : String :=
  "usage: monkey [-h] [-v] [--debug-file DEBUG_FILE] [--print-ast]\n" ++
    "              [--recursion-limit N]\n" ++
    "              [program]\n" ++
    "\n" ++
    "Monkey language interpreter\n" ++
    "\n" ++
    "positional arguments:\n" ++
    "  program               Monkey program file to execute; omit for a REPL\n" ++
    "\n" ++
    "options:\n" ++
    "  -h, --help            show this help message and exit\n" ++
    "  -v                    increase debug verbosity (can be repeated)\n" ++
    "  --debug-file DEBUG_FILE\n" ++
    "                        file receiving debug output\n" ++
    "  --print-ast           print the parsed program instead of running it\n" ++
    "  --recursion-limit N   host recursion limit (default: 10000)\n"

/-- The report on an execution. -/
def reportExecution (options : Options) (opening : String) (execution : Shell.Execution) :
    Report :=
  let output := opening ++ Shell.transcript execution.entries
  let trace? := execution.machine.log.text?.map fun text => (normalPath options.debugFile, text)
  match execution.ending with
  | .finished => ⟨some 0, output, "", trace?⟩
  | .notRun => ⟨some 1, output, "", trace?⟩
  | .faulted fault => ⟨some 1, output, "Runtime error: " ++ fault.message ++ "\n", trace?⟩

/-- Print a program in canonical form, one statement to a line, or else its parse errors. -/
def printTree (source : String) : Report :=
  let parse := Parse.ofSource source
  if parse.errors.isEmpty then
    let lines := parse.program.statements.map fun node => node.render ++ "\n"
    ⟨some 0, String.join lines, "", none⟩
  else
    ⟨some 1, Shell.transcript (parse.errors.map .parseError), "", none⟩

/-- Carry out what options ask of the text of a program file. -/
def runProgramText (options : Options) (source : String) : Report :=
  if options.printTree then printTree source
  else
    let scope := Machine.initial.store.next
    let machine := { Machine.initial with store := Machine.initial.store.addScope none }
    reportExecution options "" (Shell.execute options.settings scope source machine)

/-- Carry out what options ask of a program file. -/
def runFile (options : Options) (path : String) (disk : Disk) : Report :=
  let path := normalPath path
  match disk path with
  | none => ⟨some 1, "", "Error: file " ++ path ++ " not found\n", none⟩
  | some .notText => ⟨none, "", "", none⟩
  | some (.text source) =>
    runProgramText options (String.ofList (unifyLineEnds source.toList))

/-- Carry out a command line. Without a program file it is a session on the input. -/
def run (arguments : List String) (disk : Disk) (input user : String) : Report :=
  match readOptions arguments with
  | .error error =>
    match error.message? with
    | some message => ⟨some 2, "", "error: " ++ message ++ "\n", none⟩
    | none => ⟨none, "", "", none⟩
  | .ok options =>
    if options.showHelp then ⟨some 0, helpText, "", none⟩
    else
      match options.file? with
      | some path => runFile options path disk
      | none =>
        reportExecution options (greeting user) (Shell.session options.settings input .initial)

end MonkeyLanguage.CommandLine
