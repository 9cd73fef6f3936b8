-- SUMMARY: Reading the arguments of a command line.
import MonkeyLanguage.Numeral
import MonkeyLanguage.Text.Quoted

/-!
# Options

A command line consists of options and of words that are none. The first such
word names the program file. An option that wants a value finds it behind an
equals sign or in the next argument. Options of one letter can be written behind
a single dash together. Behind a double dash everything is a word.

The first fault in an option's value is reported at once. Arguments that nothing
can be made of are collected and reported at the end.
-/

namespace MonkeyLanguage.CommandLine

/-- What a command line asks for. -/
structure Options where
  /-- How often `-v` was given. -/
  verbosity : Nat := 0
  /-- Where the trace goes. -/
  debugFile : String := "debug.txt"
  /-- Whether to print the program instead of running it. -/
  printTree : Bool := false
  /-- How deep calls may nest. -/
  recursionLimit : Int := 10000
  /-- Whether to explain the command line and do nothing else. -/
  showHelp : Bool := false
  /-- The file that holds the program. -/
  program? : Option String := none
  deriving Inhabited

/-- Whether the host takes the limit on calls. It has to be a positive number of 32 bits. -/
def Options.limitTaken (options : Options) : Bool :=
  1 ≤ options.recursionLimit && options.recursionLimit < 0x80000000

/-- The program file, if there is one; an empty name is none. -/
def Options.file? (options : Options) : Option String :=
  options.program?.filter fun name => !name.isEmpty

/-- The options by name. -/
inductive OptionName where
  | help
  | verbose
  | debugFile
  | printTree
  | recursionLimit
  deriving DecidableEq, Inhabited

namespace OptionName

/-- How an option can be written. -/
def spellings : OptionName → List String
  | help => ["-h", "--help"]
  | verbose => ["-v"]
  | debugFile => ["--debug-file"]
  | printTree => ["--print-ast"]
  | recursionLimit => ["--recursion-limit"]

/-- How messages name an option. -/
def display (name : OptionName) : String :=
  String.intercalate "/" name.spellings

/-- All options. -/
def all : List OptionName :=
  [help, verbose, debugFile, printTree, recursionLimit]

/-- The option that is written in a certain way. -/
def ofSpelling? (text : List Char) : Option OptionName :=
  all.find? fun name => name.spellings.any fun spelling => spelling.toList == text

/-- The option that a letter stands for behind a single dash. -/
def ofLetter? (letter : Char) : Option OptionName :=
  ofSpelling? ['-', letter]

/-- Whether an option wants a value. -/
def wantsValue : OptionName → Bool
  | debugFile => true
  | recursionLimit => true
  | _ => false

end OptionName

/-- What is wrong with a command line. -/
inductive UsageError where
  /-- An option lacks its value. -/
  | missingValue (option : OptionName)
  /-- An option that takes no value has one. -/
  | unwantedValue (option : OptionName) (value : String)
  /-- The value of an option is no number. -/
  | notANumber (option : OptionName) (value : String)
  /-- Nothing can be made of some arguments. -/
  | unrecognized (arguments : List String)
  /-- The host does not take the limit on calls. -/
  | limitNotTaken
  /-- There is no program to print. -/
  | nothingToPrint
  deriving DecidableEq, Inhabited

/-- The message of a usage error. There is none where the host breaks off. -/
def UsageError.message? : UsageError → Option String
  | missingValue option => some ("argument " ++ option.display ++ ": expected one argument")
  | unwantedValue option value =>
    some ("argument " ++ option.display ++ ": ignored explicit argument " ++ Text.quoted value)
  | notANumber option value =>
    some ("argument " ++ option.display ++ ": invalid int value: " ++ Text.quoted value)
  | unrecognized arguments =>
    some ("unrecognized arguments: " ++ String.intercalate " " arguments)
  | limitNotTaken => none
  | nothingToPrint => some "--print-ast needs a program file"

/-! ## Single arguments -/

/-- What a single argument is, seen by itself. -/
inductive Argument where
  /-- A word that is no option. -/
  | word
  /-- An option, perhaps with a value behind an equals sign. -/
  | option (name : OptionName) (value? : Option String)
  /-- An option of one letter, with more behind the letter. -/
  | letters (first : OptionName) (others : List Char)
  /-- It looks like an option, but there is no such one. -/
  | unknown
  deriving DecidableEq, Inhabited

/-- Cut a text at its first equals sign, if it has one. -/
def splitAtEquals? (text : List Char) : Option (List Char × List Char) :=
  match text.dropWhile (· != '=') with
  | [] => none
  | _ :: value => some (text.takeWhile (· != '='), value)

/-- A text without the line feed at its end, if there is one. -/
def dropFinalLineFeed (text : List Char) : List Char :=
  if text.getLast? = some '\n' then text.dropLast else text

/-- A number behind a dash: digits, with or without a period before the last of them. A line
feed at the end does no harm. -/
def isNegativeNumber : List Char → Bool
  | '-' :: text =>
    let digits := dropFinalLineFeed text
    let isDigit := fun c => (Text.digitValue? c).isSome
    let fraction := digits.dropWhile isDigit
    match fraction with
    | [] => !digits.isEmpty
    | '.' :: decimals => !decimals.isEmpty && decimals.all isDigit
    | _ => false
  | _ => false

/-- What an argument is that is no option as a whole. Behind a dash, more may follow an option
of one letter. -/
def classifyUnassigned (text : List Char) : Argument :=
  match text with
  | '-' :: letter :: others =>
    match OptionName.ofLetter? letter with
    | some name => .letters name others
    | none => if isNegativeNumber text || text.contains ' ' then .word else .unknown
  | _ => .word

/-- What an argument is that gives a value to an option. An equals sign behind a single letter
is passed over unless nothing comes after it. -/
def classifyAssigned (name : OptionName) (spelling value : List Char) : Argument :=
  match spelling, value with
  | [_, _], next :: others => .letters name (next :: others)
  | _, value => .option name (some (String.ofList value))

/-- What a single argument is. -/
def classify (argument : String) : Argument :=
  let text := argument.toList
  match text with
  | '-' :: _ :: _ =>
    match OptionName.ofSpelling? text with
    | some name => .option name none
    | none =>
      match splitAtEquals? text with
      | some (spelling, value) =>
        match OptionName.ofSpelling? spelling with
        | some name => classifyAssigned name spelling value
        | none => classifyUnassigned text
      | none => classifyUnassigned text
  | _ => .word

/-! ## Whole command lines -/

/-- Options read so far, and the arguments that nothing could be made of. -/
structure Reading where
  options : Options := {}
  unrecognized : List String := []
  deriving Inhabited

namespace Reading

/-- Take a word: the first one names the program, others are too many. -/
def takeWord (reading : Reading) (word : String) : Reading :=
  match reading.options.program? with
  | none => { reading with options := { reading.options with program? := some word } }
  | some _ => { reading with unrecognized := reading.unrecognized ++ [word] }

/-- Take an argument that nothing can be made of. -/
def takeUnknown (reading : Reading) (argument : String) : Reading :=
  { reading with unrecognized := reading.unrecognized ++ [argument] }

/-- Take an option that wants no value. -/
def takeSwitch (reading : Reading) : OptionName → Reading
  | .help => { reading with options := { reading.options with showHelp := true } }
  | .verbose =>
    { reading with
      options := { reading.options with verbosity := reading.options.verbosity + 1 } }
  | .printTree => { reading with options := { reading.options with printTree := true } }
  | _ => reading

/-- Take an option with the value that it wants. -/
def takeValue (reading : Reading) (name : OptionName) (value : String) :
    Except UsageError Reading :=
  match name with
  | .debugFile => .ok { reading with options := { reading.options with debugFile := value } }
  | .recursionLimit =>
    match Numeral.read? value with
    | some limit =>
      .ok { reading with options := { reading.options with recursionLimit := limit } }
    | none => .error (.notANumber name value)
  | _ => .error (.unwantedValue name value)

/-- Take an option of one letter and the letters behind it, which are options as well. From the
first that is none, the rest would be a value, and no option of one letter wants one. -/
def takeLetters (reading : Reading) (name : OptionName) : List Char → Except UsageError Reading
  | [] => .ok (reading.takeSwitch name)
  | letter :: others =>
    match OptionName.ofLetter? letter with
    | some next => (reading.takeSwitch name).takeLetters next others
    | none => .error (.unwantedValue name (String.ofList (letter :: others)))

end Reading

/-- Take the words behind a double dash. The double dash itself is forgotten together with the
program's name, before or behind it; if the name came earlier, it is one argument too many. -/
def readWords (reading : Reading) (words : List String) : Reading :=
  words.foldl Reading.takeWord reading

/-- Read the arguments one by one, up to the first that asks for help. `named` says that the
argument before was the program's name. -/
def readArguments (named : Bool) (reading : Reading) : List String → Except UsageError Reading
  | [] => .ok reading
  | argument :: rest =>
    if reading.options.showHelp then .ok reading
    else if argument = "--" then
      let reading :=
        if reading.options.program?.isSome && !named then reading.takeUnknown "--" else reading
      .ok (readWords reading rest)
    else
      match classify argument with
      | .word => readArguments reading.options.program?.isNone (reading.takeWord argument) rest
      | .unknown => readArguments false (reading.takeUnknown argument) rest
      | .letters first others => do
        let reading ← reading.takeLetters first others
        readArguments false reading rest
      | .option name (some value) => do
        let reading ← reading.takeValue name value
        readArguments false reading rest
      | .option name none =>
        if name.wantsValue then
          match rest with
          | [] => .error (.missingValue name)
          | value :: rest =>
            if value = "--" ∨ classify value ≠ .word then .error (.missingValue name)
            else do
              let reading ← reading.takeValue name value
              readArguments false reading rest
        else readArguments false (reading.takeSwitch name) rest

/-- Read a whole command line. A call for help leaves no room for complaints. -/
def readOptions (arguments : List String) : Except UsageError Options := do
  let reading ← readArguments false {} arguments
  let options := reading.options
  if options.showHelp then .ok options
  else if !reading.unrecognized.isEmpty then .error (.unrecognized reading.unrecognized)
  else if !options.limitTaken then .error .limitNotTaken
  else if options.printTree && options.file?.isNone then .error .nothingToPrint
  else .ok options

end MonkeyLanguage.CommandLine
