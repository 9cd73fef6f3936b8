-- SUMMARY: Quoted display of texts, with escapes for what cannot be shown.
import MonkeyLanguage.Text.Printable

/-!
# Quoted display

A text is shown between single quotes, or between double quotes if it holds a
single quote and no double quote. The quote in use and the backslash are
escaped, tabs and line ends have short escapes, and every other character that
is not printable is written by its code point in two, four or eight
hexadecimal digits.
-/

namespace MonkeyLanguage.Text

/-- The lower-case hexadecimal digits of a number, padded with zeros to the given width. -/
def hexadecimal (width code : Nat) : List Char :=
  let digits := Nat.toDigits 16 code
  List.replicate (width - digits.length) '0' ++ digits

/-- How one character is shown between the given quotes. -/
def quotedChar (quote c : Char) : List Char :=
  if c = quote ∨ c = '\\' then ['\\', c]
  else if c = '\t' then ['\\', 't']
  else if c = '\n' then ['\\', 'n']
  else if c = '\r' then ['\\', 'r']
  else if isPrintable c then [c]
  else if c.toNat < 0x100 then '\\' :: 'x' :: hexadecimal 2 c.toNat
  else if c.toNat < 0x10000 then '\\' :: 'u' :: hexadecimal 4 c.toNat
  else '\\' :: 'U' :: hexadecimal 8 c.toNat

/-- The quote that a text is shown between. -/
def quoteFor (text : List Char) : Char :=
  if '\'' ∈ text ∧ '"' ∉ text then '"' else '\''

/-- A text between quotes, escaped where needed. -/
def quoted (text : String) : String :=
  let chars := text.toList
  let quote := quoteFor chars
  String.ofList (quote :: chars.flatMap (quotedChar quote) ++ [quote])

end MonkeyLanguage.Text
