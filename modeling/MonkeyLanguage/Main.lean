-- SUMMARY: The program: it carries out its command line.
import MonkeyLanguage.CommandLine.Run

/-!
# The program

Reads the command line, the disk and the input, and shows what comes of them. A
session is carried out line by line, as the lines arrive.
-/

namespace MonkeyLanguage.CommandLine

/-- The content of a file on disk, if there is one. -/
def readDisk (path : String) : IO (Option FileContent) := do
  try
    let bytes ← IO.FS.readBinFile path
    match String.fromUTF8? bytes with
    | some source => return some (.text source)
    | none => return some .notText
  catch _ => return none

/-- Write out the trace, if there is one. -/
def writeTrace (options : Options) (machine : Machine) : IO Unit := do
  match machine.log.text? with
  | some text => IO.FS.writeFile options.debugFile text
  | none => pure ()

/-- Carry out a session line by line, in a scope, until the input ends or a fault stops it. -/
partial def serveSession (options : Options) (scope : ScopeId) (machine : Machine) : IO UInt32 := do
  let output ← IO.getStdout
  output.putStr Shell.Entry.prompt.text
  output.flush
  let line ← (← IO.getStdin).getLine
  if line.isEmpty then
    return 0
  let execution := Shell.executeLine options.settings scope line machine
  output.putStr (Shell.transcript execution.entries)
  writeTrace options execution.machine
  match execution.ending with
  | .faulted fault =>
    IO.eprint ("Runtime error: " ++ fault.message ++ "\n")
    return 1
  | _ => serveSession options scope execution.machine

/-- Show a report, and yield its exit code. -/
def showReport (report : Report) : IO UInt32 := do
  IO.print report.output
  IO.eprint report.errorOutput
  match report.trace? with
  | some (name, text) => IO.FS.writeFile name text
  | none => pure ()
  return (report.exit?.getD 1).toUInt32

/-- Carry out a command line. -/
def carryOut (arguments : List String) : IO UInt32 := do
  match readOptions arguments with
  | .ok options =>
    if options.showHelp then
      showReport (run arguments (fun _ => none) "" "")
    else
      match options.file? with
      | none =>
        let user := (← IO.getEnv "USER").getD "there"
        IO.print (greeting user)
        let store := Machine.initial.store
        serveSession options store.next { Machine.initial with store := store.addScope none }
      | some path =>
        let content ← readDisk (normalPath path)
        showReport (run arguments (fun _ => content) "" "")
  | .error _ => showReport (run arguments (fun _ => none) "" "")

end MonkeyLanguage.CommandLine

/-- The program. -/
def main (arguments : List String) : IO UInt32 :=
  MonkeyLanguage.CommandLine.carryOut arguments
