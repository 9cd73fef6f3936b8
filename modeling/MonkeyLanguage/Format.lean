-- SUMMARY: Formats and their expansion.

/-!
# Formats

A format is a text with verbs in it: a percent sign and one of the letters `s`,
`d`, `v`, `t` and `q`. Each verb takes the next argument, as it is or, for `q`,
between double quotes. Two percent signs are one percent sign of the expansion;
a percent sign before anything else stands for itself. What is put in is not
looked at again.
-/

namespace MonkeyLanguage.Format

/-- A part of a format. -/
inductive Piece where
  /-- A character that stands for itself, or a doubled percent sign. -/
  | literal (c : Char)
  /-- A place for an argument, with or without quotes around it. -/
  | verb (quoted : Bool)
  deriving DecidableEq, Inhabited

/-- The part that a percent sign makes with the character behind it. -/
def escape? : Char → Option Piece
  | '%' => some (.literal '%')
  | 's' | 'd' | 'v' | 't' => some (.verb false)
  | 'q' => some (.verb true)
  | _ => none

/-- Cut a format into its parts, from left to right. -/
def pieces : List Char → List Piece
  | [] => []
  | '%' :: c :: rest =>
    match escape? c with
    | some piece => piece :: pieces rest
    | none => .literal '%' :: pieces (c :: rest)
  | c :: rest => .literal c :: pieces rest

/-- How many arguments parts ask for. -/
def wanted : List Piece → Nat
  | [] => 0
  | .literal _ :: rest => wanted rest
  | .verb _ :: rest => wanted rest + 1

/-- Put arguments in for the verbs, one after the other, if they do not run out. -/
def fill : List Piece → List String → Option (List Char)
  | [], _ => some []
  | .literal c :: rest, arguments => (fill rest arguments).map (c :: ·)
  | .verb _ :: _, [] => none
  | .verb true :: rest, argument :: arguments =>
    (fill rest arguments).map fun text => '"' :: argument.toList ++ '"' :: text
  | .verb false :: rest, argument :: arguments =>
    (fill rest arguments).map (argument.toList ++ ·)

/-- How many arguments a format asks for. -/
def argumentCount (format : String) : Nat :=
  wanted (pieces format.toList)

/-- The expansion of a format, if it asks for just as many arguments as there are. -/
def expand? (format : String) (arguments : List String) : Option String :=
  let parts := pieces format.toList
  if wanted parts = arguments.length then (fill parts arguments).map String.ofList else none

end MonkeyLanguage.Format
