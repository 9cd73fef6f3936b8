-- SUMMARY: Scopes, their bindings, and the store that holds them.
import MonkeyLanguage.Table
import MonkeyLanguage.Text.Separated
import MonkeyLanguage.Value

/-!
# Store

A scope binds names to values. It may lie inside another scope, where names that
it does not bind are looked up. Scopes are shared: closures, and the calls that
made them, refer to one and the same scope, so the store holds all scopes and
everything else knows them by number.

A scope is opened after the one it lies inside of, so the way outward leads to
smaller and smaller numbers and comes to an end.
-/

namespace MonkeyLanguage

/-- The bindings of one scope, and the scope around it. -/
structure Scope where
  bindings : List (String × Value) := []
  outer : Option ScopeId := none
  deriving Inhabited

/-- All scopes that were opened, in order. -/
structure Store where
  scopes : Array Scope := #[]
  deriving Inhabited

namespace Store

/-- A store without scopes. -/
def empty : Store := ⟨#[]⟩

/-- The number of the scope that is opened next. -/
def next (store : Store) : ScopeId :=
  store.scopes.size

/-- Add a scope, inside another one or on its own. -/
def addScope (store : Store) (outer : Option ScopeId) : Store :=
  ⟨store.scopes.push ⟨[], outer⟩⟩

/-- The bindings that a scope makes itself. -/
def bindings (store : Store) (scope : ScopeId) : List (String × Value) :=
  (store.scopes[scope]?.map Scope.bindings).getD []

/-- The scope around a scope. -/
def outer? (store : Store) (scope : ScopeId) : Option ScopeId :=
  store.scopes[scope]?.bind Scope.outer

/-- Bind a name in a scope; bindings of outer scopes stay as they are. -/
def bind (store : Store) (scope : ScopeId) (name : String) (value : Value) : Store :=
  ⟨store.scopes.modify scope fun old =>
    { old with bindings := Table.insert name value old.bindings }⟩

/-- Bind names to values in a scope, one after the other. -/
def bindAll (store : Store) (scope : ScopeId) (entries : List (String × Value)) : Store :=
  entries.foldl (fun store entry => store.bind scope entry.1 entry.2) store

/-- The first `length` scopes on the way outward from a scope, itself included. -/
def chainUpTo (store : Store) : (length : Nat) → ScopeId → List ScopeId
  | 0, _ => []
  | length + 1, scope =>
    scope :: match store.outer? scope with
      | some outer => chainUpTo store length outer
      | none => []

/-- The scopes on the way outward from a scope, itself included. Numbers get smaller on the
way, so it is no longer than the number of the scope says. -/
def chain (store : Store) (scope : ScopeId) : List ScopeId :=
  store.chainUpTo (scope + 1) scope

/-- The value of a name in the nearest scope on the way outward that binds it. -/
def find? (store : Store) (scope : ScopeId) (name : String) : Option Value :=
  (store.chain scope).findSome? fun id => Table.find? name (store.bindings id)

/-- The bindings that a scope makes itself, sorted by name. -/
def sortedBindings (store : Store) (scope : ScopeId) : List (String × Value) :=
  (store.bindings scope).mergeSort fun a b => decide (a.1 ≤ b.1)

/-- How a scope is shown: its own names, and whether it lies inside another scope. -/
def display (store : Store) (scope : ScopeId) : String :=
  "<Environment [" ++ Text.commaSeparated ((store.sortedBindings scope).map Prod.fst) ++ "]" ++
    (if (store.outer? scope).isSome then " +outer" else "") ++ ">"

end Store

end MonkeyLanguage
