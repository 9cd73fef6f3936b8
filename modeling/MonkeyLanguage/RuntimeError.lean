-- SUMMARY: The types of values and the errors of a run.

/-!
# Runtime errors

An error of a run is a value that says what went wrong. It holds the cause; the
wording is all in `RuntimeError.message`.
-/

namespace MonkeyLanguage

/-- The types of values. -/
inductive ValueType where
  | integer
  | string
  | boolean
  | null
  | returned
  | error
  | function
  | builtin
  | array
  | hash
  deriving DecidableEq, Inhabited

/-- The name of a type, as messages show it. -/
def ValueType.name : ValueType → String
  | integer => "INTEGER"
  | string => "STRING"
  | boolean => "BOOLEAN"
  | null => "NULL"
  | returned => "RETURN_VALUE"
  | error => "ERROR"
  | function => "FUNCTION"
  | builtin => "BUILTIN"
  | array => "ARRAY"
  | hash => "HASH"

/-- What can go wrong in a run. -/
inductive RuntimeError where
  /-- The operands of an operator are of different types. -/
  | typeMismatch (left : ValueType) (operator : String) (right : ValueType)
  /-- The operator does not work on these types. -/
  | unknownBinary (left : ValueType) (operator : String) (right : ValueType)
  /-- The operator does not work in front of a value of this type. -/
  | unknownPrefixed (operator : String) (right : ValueType)
  | divisionByZero
  /-- A string cannot be repeated that often. -/
  | repetitionTooLarge (count : Int)
  /-- A name is neither bound nor built in. -/
  | unknownName (name : String)
  /-- What is called is no function. -/
  | notAFunction (found : ValueType)
  /-- A function wants another number of arguments. -/
  | wrongArgumentCount (given wanted : Nat)
  /-- A function that wants at least one argument got none. -/
  | noArguments
  /-- A format wants another number of arguments. -/
  | wrongFormatCount (given wanted : Nat)
  /-- A value of this type cannot be the key of a hash. -/
  | unusableKey (found : ValueType)
  /-- A value of this type holds nothing to look up. -/
  | notIndexable (found : ValueType)
  /-- A value of this type has no length. -/
  | noLength (found : ValueType)
  /-- An error from outside, with its message. -/
  | stated (text : String)
  deriving DecidableEq, Inhabited

/-- The message of an error. -/
def RuntimeError.message : RuntimeError → String
  | typeMismatch left operator right =>
    "type mismatch: " ++ left.name ++ " " ++ operator ++ " " ++ right.name
  | unknownBinary left operator right =>
    "unknown operator: " ++ left.name ++ " " ++ operator ++ " " ++ right.name
  | unknownPrefixed operator right => "unknown operator: " ++ operator ++ right.name
  | divisionByZero => "division by zero"
  | repetitionTooLarge count => "string repetition too large: " ++ toString count
  | unknownName name => "identifier not found: " ++ name
  | notAFunction found => "not a function: " ++ found.name
  | wrongArgumentCount given wanted =>
    "wrong number of arguments. got=" ++ toString given ++ ", want=" ++ toString wanted
  | noArguments => "wrong number of arguments. got=0"
  | wrongFormatCount given wanted =>
    "wrong number of arguments for format. got=" ++ toString given ++ ", want=" ++ toString wanted
  | unusableKey found => "unusable as hash key: " ++ found.name
  | notIndexable found => "index operator not supported: " ++ found.name
  | noLength found => "argument to `len` is not supported. got " ++ found.name
  | stated text => text

end MonkeyLanguage
