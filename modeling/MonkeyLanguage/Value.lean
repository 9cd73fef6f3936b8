-- SUMMARY: The values of a run.
import MonkeyLanguage.Builtin
import MonkeyLanguage.Node
import MonkeyLanguage.RuntimeError

/-!
# Values

A run computes values. Two of them are signals: a returned value travels up to
the call that it leaves, and an error travels up to the end of the run. Both go
the way of ordinary values, and every place that computes one looks out for them.

A closure knows the scope that it was made in by its number, and it has a number
of its own, because two functions are the same only if they were made at once.
-/

namespace MonkeyLanguage

/-- A value that a hash can have as a key. -/
inductive HashKey where
  | integer (value : Int)
  | string (text : String)
  | boolean (value : Bool)
  deriving DecidableEq, Inhabited

/-- The number of a scope. -/
abbrev ScopeId := Nat

/-- A value of the language. -/
inductive Value where
  | integer (value : Int)
  | string (text : String)
  | boolean (value : Bool)
  | null
  /-- The value that a `return` statement sends up. -/
  | returned (value : Value)
  | error (cause : RuntimeError)
  | builtin (function : Builtin)
  /-- A function with its parameters and body, and the scope that it was made in. -/
  | closure (identity : Nat) (parameters : List Node) (body : Node) (scope : ScopeId)
  | array (elements : List Value)
  /-- A table of keys and values. A pair is kept without a key of its own, because the hash key that
  it stands under has the key's type and content: `HashKey.toValue` is the key. That every pair
  stands under the hash key of its own key is therefore true of all tables (`hashKey?_toValue`). -/
  | hash (entries : List (HashKey × Value))
  deriving Inhabited

/-- The value that a key stands for. -/
def HashKey.toValue : HashKey → Value
  | integer value => .integer value
  | string text => .string text
  | boolean value => .boolean value

namespace Value

/-- The type of a value. -/
def type : Value → ValueType
  | integer _ => .integer
  | string _ => .string
  | boolean _ => .boolean
  | null => .null
  | returned _ => .returned
  | error _ => .error
  | builtin _ => .builtin
  | closure .. => .function
  | array _ => .array
  | hash _ => .hash

/-- The key that a value makes, if values of its type can be keys. -/
def hashKey? : Value → Option HashKey
  | integer value => some (.integer value)
  | string text => some (.string text)
  | boolean value => some (.boolean value)
  | _ => none

/-- Whether a value is an error. -/
def isError : Value → Bool
  | error _ => true
  | _ => false

/-- Whether a value stops the statements after the one that it comes from. -/
def isSignal : Value → Bool
  | error _ => true
  | returned _ => true
  | _ => false

/-- Whether a condition with this value holds: all but `false` and `null` do. -/
def isTruthy : Value → Bool
  | boolean value => value
  | null => false
  | _ => true

/-- The value that arrives where a `return` ends; other values pass as they are. -/
def received : Value → Value
  | returned value => value
  | value => value

/-- The value that a key stands for makes this key. -/
theorem hashKey?_toValue (key : HashKey) : key.toValue.hashKey? = some key := by
  cases key <;> rfl

end Value

end MonkeyLanguage
