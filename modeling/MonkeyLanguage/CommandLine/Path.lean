-- SUMMARY: The normal form of file paths.

/-!
# File paths

The normal form of a path has no empty components and none that are a single
period. One slash in front is kept, and so are exactly two, but not more. A path
of which nothing is left is a single period.
-/

namespace MonkeyLanguage.CommandLine

/-- Cut a text at its slashes. -/
def components : List Char → List (List Char)
  | [] => [[]]
  | c :: rest =>
    if c = '/' then [] :: components rest
    else
      match components rest with
      | [] => [[c]]
      | first :: others => (c :: first) :: others

/-- The slashes in front of a path that count. -/
def pathRoot : List Char → List Char
  | '/' :: '/' :: '/' :: _ => ['/']
  | '/' :: '/' :: _ => ['/', '/']
  | '/' :: _ => ['/']
  | _ => []

/-- The normal form of a path. -/
def normalPath (path : String) : String :=
  let parts := (components path.toList).filter fun part => part != [] && part != ['.']
  let normal := pathRoot path.toList ++ ['/'].intercalate parts
  if normal = [] then "." else String.ofList normal

end MonkeyLanguage.CommandLine
