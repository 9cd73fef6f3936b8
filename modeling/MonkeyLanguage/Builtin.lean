-- SUMMARY: The built-in functions and their names.

/-!
# Built-in functions

The functions that every program can call without defining them. A program can
bind their names to something else, but it cannot change what they do.
-/

namespace MonkeyLanguage

/-- A function that the language brings along. -/
inductive Builtin where
  /-- The length of a string or of an array. -/
  | length
  /-- Write a format with its arguments put in. -/
  | printFormatted
  /-- Write texts with spaces between them, and end the line. -/
  | printLine
  deriving DecidableEq, Inhabited

namespace Builtin

/-- The name that a program calls it by. -/
def name : Builtin → String
  | length => "len"
  | printFormatted => "printf"
  | printLine => "println"

/-- All built-in functions, by name. -/
def all : List Builtin :=
  [length, printFormatted, printLine]

/-- The built-in function of a name. -/
def ofName? (name : String) : Option Builtin :=
  all.find? fun builtin => builtin.name == name

/-- How a built-in function is shown. -/
def display (builtin : Builtin) : String :=
  "<builtin " ++ builtin.name ++ ">"

end Builtin

end MonkeyLanguage
