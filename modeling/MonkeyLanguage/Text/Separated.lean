-- SUMMARY: Texts in a row, with commas between them.

/-!
# Separated texts

Lists of all sorts are shown the same way: their items in order, with a comma and
a space between each two.
-/

namespace MonkeyLanguage.Text

/-- Texts with a comma between each two. -/
def commaSeparated (texts : List String) : String :=
  String.intercalate ", " texts

end MonkeyLanguage.Text
