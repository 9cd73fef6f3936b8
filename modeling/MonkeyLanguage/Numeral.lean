-- SUMMARY: Reading the texts of integer tokens.
import MonkeyLanguage.Text.Blank
import MonkeyLanguage.Text.DecimalDigit

/-!
# Numerals

The text of an integer token may come from the scanner, which only makes runs of
ASCII digits, or from outside. From outside it may have blanks around it and a
sign in front, its digits may be those of any script, and a single underscore
may stand between two digits. `Numeral.read?` reads all of these, unless the
digits are too many. How many are too many is a setting, and there may be no
limit at all.
-/

namespace MonkeyLanguage.Numeral

/-- The blanks that may surround a numeral: all but the four information separators. -/
def isPadding (c : Char) : Bool :=
  Text.isBlank c && !(28 ≤ c.toNat && c.toNat ≤ 31)

/-- Continue a number whose digits so far have the value `value`. -/
def readDigits (value : Nat) : List Char → Option Nat
  | [] => some value
  | '_' :: c :: rest => (Text.digitValue? c).bind fun digit => readDigits (value * 10 + digit) rest
  | c :: rest => (Text.digitValue? c).bind fun digit => readDigits (value * 10 + digit) rest

/-- How many digits a numeral may have, if there is a limit. Zeros in front count, underscores
do not. -/
abbrev DigitLimit := Option Nat

/-- The limit that holds unless another one is set. -/
def usualLimit : DigitLimit := some 4300

/-- Whether a run of digits and underscores has no more digits than a numeral may have. -/
def fits (limit : DigitLimit) (text : List Char) : Bool :=
  limit.all fun most => (text.filter (· != '_')).length ≤ most

/-- A non-empty run of digits that fits, with single underscores between them. -/
def readMagnitude (limit : DigitLimit) : List Char → Option Nat
  | [] => none
  | c :: rest =>
    if fits limit (c :: rest) then (Text.digitValue? c).bind fun digit => readDigits digit rest
    else none

/-- A run of digits with an optional sign. -/
def readSigned (limit : DigitLimit) : List Char → Option Int
  | '-' :: rest => (readMagnitude limit rest).map fun n => -(n : Int)
  | '+' :: rest => (readMagnitude limit rest).map fun n => (n : Int)
  | digits => (readMagnitude limit digits).map fun n => (n : Int)

/-- The value of a numeral with optional padding around it. -/
def read? (text : String) (limit : DigitLimit := usualLimit) : Option Int :=
  readSigned limit (Text.trim isPadding text.toList)

end MonkeyLanguage.Numeral
