-- SUMMARY: What opening a scope and binding a name do to the bindings and links of all scopes.
import MonkeyLanguage.Store

/-!
# Scopes of a store

A store is looked at through the bindings that a scope makes and through the scope around it.
Binding a name touches the bindings of one scope. Opening a scope touches nothing but the link
of the new one.
-/

namespace MonkeyLanguage

namespace Table

variable {κ ν : Type} [DecidableEq κ]

theorem mem_keys_insert {key other : κ} {value : ν} {table : List (κ × ν)} :
    other ∈ keys (insert key value table) ↔ other = key ∨ other ∈ keys table := by
  induction table with
  | nil => simp [insert, keys]
  | cons entry rest ih =>
      by_cases h : entry.1 = key
      · simp [insert, keys, h]
      · simp only [keys] at ih
        simp only [insert, if_neg h, keys, List.map_cons, List.mem_cons, ih]
        exact or_left_comm

end Table

namespace Store

variable {store : Store}

/-! ## Scopes that are not there -/

theorem getElem?_of_next_le {scope : ScopeId} (h : store.next ≤ scope) :
    store.scopes[scope]? = none :=
  Array.getElem?_eq_none h

theorem bindings_of_next_le {scope : ScopeId} (h : store.next ≤ scope) :
    store.bindings scope = [] := by
  rw [bindings, getElem?_of_next_le h]
  rfl

theorem outer?_of_next_le {scope : ScopeId} (h : store.next ≤ scope) :
    store.outer? scope = none := by
  rw [outer?, getElem?_of_next_le h]
  rfl

/-- A store is what it binds in its scopes, and how they lie inside each other. -/
theorem eq_of_views {store' : Store} (hnext : store.next = store'.next)
    (hbindings : ∀ id, store.bindings id = store'.bindings id)
    (houter : ∀ id, store.outer? id = store'.outer? id) : store = store' := by
  have hscopes : store.scopes = store'.scopes := by
    apply Array.ext hnext
    intro id hid hid'
    have hbindings := hbindings id
    have houter := houter id
    rw [bindings, bindings, Array.getElem?_eq_getElem hid, Array.getElem?_eq_getElem hid']
      at hbindings
    rw [outer?, outer?, Array.getElem?_eq_getElem hid, Array.getElem?_eq_getElem hid'] at houter
    generalize store.scopes[id] = scope at hbindings houter ⊢
    generalize store'.scopes[id] = scope' at hbindings houter ⊢
    cases scope
    cases scope'
    cases hbindings
    cases houter
    rfl
  cases store
  cases hscopes
  rfl

/-! ## A new scope -/

@[simp] theorem next_addScope (outer : Option ScopeId) :
    (store.addScope outer).next = store.next + 1 :=
  Array.size_push ..

@[simp] theorem bindings_addScope (outer : Option ScopeId) (scope : ScopeId) :
    (store.addScope outer).bindings scope = store.bindings scope := by
  by_cases h : scope = store.scopes.size
  · have hnone : store.bindings scope = [] := bindings_of_next_le (Nat.le_of_eq h.symm)
    rw [hnone]
    simp [bindings, addScope, h]
  · simp [bindings, addScope, Array.getElem?_push, h]

theorem outer?_addScope (outer : Option ScopeId) (scope : ScopeId) :
    (store.addScope outer).outer? scope =
      if scope = store.next then outer else store.outer? scope := by
  by_cases h : scope = store.scopes.size
  · simp [outer?, addScope, next, h]
  · simp [outer?, addScope, next, Array.getElem?_push, h]

/-! ## A new binding -/

@[simp] theorem next_bind (scope : ScopeId) (name : String) (value : Value) :
    (store.bind scope name value).next = store.next :=
  Array.size_modify ..

@[simp] theorem outer?_bind (scope : ScopeId) (name : String) (value : Value) (other : ScopeId) :
    (store.bind scope name value).outer? other = store.outer? other := by
  simp only [outer?, bind, Array.getElem?_modify]
  split
  · cases store.scopes[other]? <;> rfl
  · rfl

theorem bindings_bind_of_ne {scope other : ScopeId} (h : other ≠ scope) (name : String)
    (value : Value) : (store.bind scope name value).bindings other = store.bindings other := by
  simp only [bindings, bind, Array.getElem?_modify, if_neg h.symm]

theorem bindings_bind_self {scope : ScopeId} (h : scope < store.next) (name : String)
    (value : Value) :
    (store.bind scope name value).bindings scope =
      Table.insert name value (store.bindings scope) := by
  have hscope : store.scopes[scope]? = some store.scopes[scope] := Array.getElem?_eq_getElem h
  simp [bindings, bind, Array.getElem?_modify, hscope]

theorem bindAll_cons (scope : ScopeId) (entry : String × Value)
    (rest : List (String × Value)) :
    store.bindAll scope (entry :: rest) =
      (store.bind scope entry.1 entry.2).bindAll scope rest := rfl

@[simp] theorem next_bindAll (scope : ScopeId) (entries : List (String × Value)) :
    (store.bindAll scope entries).next = store.next := by
  induction entries generalizing store with
  | nil => rfl
  | cons entry rest ih => rw [bindAll_cons, ih, next_bind]

@[simp] theorem outer?_bindAll (scope : ScopeId) (entries : List (String × Value))
    (other : ScopeId) : (store.bindAll scope entries).outer? other = store.outer? other := by
  induction entries generalizing store with
  | nil => rfl
  | cons entry rest ih => rw [bindAll_cons, ih, outer?_bind]

theorem bindings_bindAll_of_ne {scope other : ScopeId} (h : other ≠ scope)
    (entries : List (String × Value)) :
    (store.bindAll scope entries).bindings other = store.bindings other := by
  induction entries generalizing store with
  | nil => rfl
  | cons entry rest ih => rw [bindAll_cons, ih, bindings_bind_of_ne h]

end Store

end MonkeyLanguage
