-- SUMMARY: The characters that count as white space, and trimming of texts.

/-!
# Blank characters

White space is the set of Unicode: the ASCII controls from tab to carriage
return, the four information separators, the space, and the spaces and line
separators outside ASCII. A line feed is only one blank among others here; that
it also ends a line is the business of positions.
-/

namespace MonkeyLanguage.Text

/-- A character is blank if Unicode counts it as white space. -/
def isBlank (c : Char) : Bool :=
  let code := c.toNat
  (9 ≤ code && code ≤ 13) || (28 ≤ code && code ≤ 32) || code == 0x85 || code == 0xA0 ||
    code == 0x1680 || (0x2000 ≤ code && code ≤ 0x200A) || code == 0x2028 || code == 0x2029 ||
    code == 0x202F || code == 0x205F || code == 0x3000

/-- Remove the longest stretch of characters with the given property from each end. -/
def trim (p : Char → Bool) (text : List Char) : List Char :=
  ((text.dropWhile p).reverse.dropWhile p).reverse

/-- A text is blank if all its characters are. -/
def allBlank (text : String) : Bool :=
  text.toList.all isBlank

end MonkeyLanguage.Text
