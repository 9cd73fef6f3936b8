-- SUMMARY: What operators, look-ups and hash literals compute.
import MonkeyLanguage.Integer
import MonkeyLanguage.Table
import MonkeyLanguage.Value

/-!
# Operators

An operator is chosen by its text and the types of its operands. Whatever does
not fit is an error: of types that do not go together if the operands' types
differ, and of the operator otherwise.
-/

namespace MonkeyLanguage.Value

/-! ## In front of an operand -/

/-- An operator in front of its operand. -/
def prefixed (operator : String) (right : Value) : Value :=
  match operator, right with
  | "!", right => .boolean (!right.isTruthy)
  | "-", .integer n => .integer (Integer.wrap (-n))
  | operator, right => .error (.unknownPrefixed operator right.type)

/-! ## Between two operands -/

/-- An operator between two numbers. -/
def integerBinary (operator : String) (a b : Int) : Value :=
  match operator with
  | "+" => .integer (Integer.wrap (a + b))
  | "-" => .integer (Integer.wrap (a - b))
  | "*" => .integer (Integer.wrap (a * b))
  | "/" =>
    if b = 0 then .error .divisionByZero else .integer (Integer.wrap (Integer.quotient a b))
  | "==" => .boolean (a == b)
  | "!=" => .boolean (a != b)
  | "<" => .boolean (decide (a < b))
  | ">" => .boolean (decide (a > b))
  | _ => .error (.unknownBinary .integer operator .integer)

/-- An operator between two truth values, of which `false` is the smaller. -/
def booleanBinary (operator : String) (a b : Bool) : Value :=
  match operator with
  | "==" => .boolean (a == b)
  | "!=" => .boolean (a != b)
  | "<" => .boolean (!a && b)
  | ">" => .boolean (a && !b)
  | _ => .error (.unknownBinary .boolean operator .boolean)

/-- An operator between two strings. -/
def stringBinary (operator : String) (a b : String) : Value :=
  match operator with
  | "+" => .string (a ++ b)
  | "==" => .boolean (a == b)
  | "!=" => .boolean (a != b)
  | _ => .error (.unknownBinary .string operator .string)

/-- How many characters a repeated string may have unless another limit is set. -/
def usualRepetitionLimit : Nat := 0x100000000

/-- A string repeated; a negative count leaves nothing of it. Counts of more than 64 bits are too
large, and so are those that make more characters than the memory has room for. An empty string
takes no room. -/
def repetition (limit : Nat) (text : String) (count : Int) : Value :=
  if ¬ Integer.InRange count ∨ limit < text.length * count.toNat then
    .error (.repetitionTooLarge count)
  else if text.isEmpty then
    .string text
  else
    .string (String.join (List.replicate count.toNat text))

/-- An operator between two values, where repeated strings have at most `limit` characters. -/
def binary (operator : String) (left right : Value) (limit : Nat := usualRepetitionLimit) :
    Value :=
  match left, right with
  | .integer a, .integer b => integerBinary operator a b
  | .boolean a, .boolean b => booleanBinary operator a b
  | .string a, .string b => stringBinary operator a b
  | left, right =>
    match operator, left, right with
    | "*", .string text, .integer count => repetition limit text count
    | operator, left, right =>
      if left.type = right.type then .error (.unknownBinary left.type operator right.type)
      else .error (.typeMismatch left.type operator right.type)

/-! ## Look-ups -/

/-- The element at a place, counted from zero; there is none before the first or past the last. -/
def element? (elements : List Value) (place : Int) : Option Value :=
  if place < 0 then none else elements[place.toNat]?

/-- What an array holds at a place or a hash under a key, and `null` where they hold nothing. -/
def lookUp (target key : Value) : Value :=
  match target, key with
  | .array elements, .integer place => (element? elements place).getD .null
  | .hash entries, key =>
    match key.hashKey? with
    | some hashKey => (Table.find? hashKey entries).getD .null
    | none => .error (.unusableKey key.type)
  | target, _ => .error (.notIndexable target.type)

end MonkeyLanguage.Value
