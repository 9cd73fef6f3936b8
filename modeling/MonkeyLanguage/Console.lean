-- SUMMARY: The console that programs write to.
import MonkeyLanguage.Format

/-!
# Console

The console keeps the texts that were written to it, one by one.
-/

namespace MonkeyLanguage

/-- The texts written so far, in order. -/
structure Console where
  texts : Array String := #[]
  deriving Inhabited

namespace Console

/-- Nothing has been written yet. -/
def empty : Console := ⟨#[]⟩

/-- Everything written so far, as one text. -/
def written (console : Console) : String :=
  String.join console.texts.toList

/-- Write a text. -/
def write (console : Console) (text : String) : Console :=
  ⟨console.texts.push text⟩

/-- Write texts with spaces between them, and end the line. -/
def printLine (console : Console) (texts : List String) : Console :=
  console.write (String.intercalate " " texts ++ "\n")

/-- Write the expansion of a format. Without one, nothing is written. -/
def printFormatted? (console : Console) (format : String) (arguments : List String) :
    Option Console :=
  (Format.expand? format arguments).map console.write

end Console

end MonkeyLanguage
