-- SUMMARY: When two values are equal.
import MonkeyLanguage.Table
import MonkeyLanguage.Value

/-!
# Equality of values

Values of different types differ. Errors are equal if they read the same,
closures only if they are one and the same, and two hashes if they have equal
values under the same keys, in whatever order these were written.
-/

namespace MonkeyLanguage.Value

mutual

/-- Whether two values are equal. -/
def equals : Value → Value → Bool
  | integer a, integer b => a == b
  | string a, string b => a == b
  | boolean a, boolean b => a == b
  | null, null => true
  | returned a, returned b => a.equals b
  | error a, error b => a.message == b.message
  | builtin a, builtin b => a == b
  | closure a _ _ _, closure b _ _ _ => a == b
  | array a, array b => equalsAll a b
  | hash a, hash b => a.length == b.length && containsAll a b
  | _, _ => false

/-- Whether two lists hold equal values, one by one. -/
def equalsAll : List Value → List Value → Bool
  | [], [] => true
  | a :: as, b :: bs => a.equals b && equalsAll as bs
  | _, _ => false

/-- Whether a table holds equal values under all the given keys. -/
def containsAll : List (HashKey × Value) → List (HashKey × Value) → Bool
  | [], _ => true
  | (key, value) :: rest, table =>
    (match Table.find? key table with
      | some other => value.equals other
      | none => false) && containsAll rest table

end

end MonkeyLanguage.Value
