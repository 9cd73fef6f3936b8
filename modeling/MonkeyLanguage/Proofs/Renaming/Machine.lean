-- SUMMARY: Machines that differ in their numbers for scopes and closures, and computations on them.
import Mathlib.Order.WellFounded
import MonkeyLanguage.Proofs.Alike.Machine
import MonkeyLanguage.Proofs.Renaming.Value

/-!
# Renamed machines

One machine renames another if it has the scopes of the other under their new numbers, with the
links and bindings renamed, and if whatever is made next on both goes on corresponding. It may have
more scopes than that, but no way leads to them.

The way outward from a scope is cut off after as many scopes as the number of the scope says, so it
is the same way under new numbers only if all links lead to smaller numbers. So it is on a
consistent machine, and since all its values belong to it, it stays so when functions are called.
-/

namespace MonkeyLanguage

/-! ## Stores -/

namespace Store

/-- All scopes lie inside scopes that were opened before them. -/
def Ordered (store : Store) : Prop :=
  ∀ id outer, store.outer? id = some outer → outer < id

/-- A store has the scopes of another one under new numbers, and so it is with the scopes that are
opened next. -/
structure Renames (r : Renaming) (store store' : Store) : Prop where
  next : ∀ made, r.scope (store.next + made) = store'.next + made
  outer : ∀ id, store'.outer? (r.scope id) = (store.outer? id).map r.scope
  bindings : ∀ id,
    store'.bindings (r.scope id) = Table.mapValues (Value.renamed r) (store.bindings id)

variable {r : Renaming} {store store' : Store}

/-! ### The way outward -/

/-- The way outward is over when as many scopes are passed as the number says. -/
theorem Ordered.chainUpTo_congr (h : store.Ordered) {length length' : Nat} {scope : ScopeId}
    (hscope : scope < length) (hscope' : scope < length') :
    store.chainUpTo length scope = store.chainUpTo length' scope := by
  induction length generalizing length' scope with
  | zero => exact absurd hscope (Nat.not_lt_zero _)
  | succ length ih =>
      cases length' with
      | zero => exact absurd hscope' (Nat.not_lt_zero _)
      | succ length' =>
          rw [chainUpTo, chainUpTo]
          cases houter : store.outer? scope with
          | none => rfl
          | some outer =>
              have hsmaller := h scope outer houter
              have hless := Nat.lt_of_lt_of_le hsmaller (Nat.le_of_lt_succ hscope)
              have hless' := Nat.lt_of_lt_of_le hsmaller (Nat.le_of_lt_succ hscope')
              exact congrArg (scope :: ·) (ih hless hless')

theorem Renames.chainUpTo_eq (h : store.Renames r store') (length : Nat) (scope : ScopeId) :
    store'.chainUpTo length (r.scope scope) = (store.chainUpTo length scope).map r.scope := by
  induction length generalizing scope with
  | zero => rfl
  | succ length ih =>
      rw [chainUpTo, chainUpTo, h.outer]
      cases store.outer? scope with
      | none => rfl
      | some outer => exact congrArg (r.scope scope :: ·) (ih outer)

theorem Renames.chain_eq (h : store.Renames r store') (hordered : store.Ordered) (scope : ScopeId) :
    store'.chain (r.scope scope) = (store.chain scope).map r.scope := by
  have hlength : scope < r.scope scope + 1 := Nat.lt_succ_of_le r.increasing.le_apply
  rw [chain, chain, h.chainUpTo_eq, hordered.chainUpTo_congr hlength (Nat.lt_succ_self scope)]

theorem Renames.find?_eq (h : store.Renames r store') (hordered : store.Ordered) (scope : ScopeId)
    (name : String) :
    store'.find? (r.scope scope) name = (store.find? scope name).map (Value.renamed r) := by
  rw [find?, find?, h.chain_eq hordered, List.findSome?_map, List.map_findSome?]
  congr 1
  funext id
  simp only [Function.comp_apply, h.bindings, Table.find?_mapValues]

/-- A name stands for the renamed value. -/
theorem Renames.valueOf_eq (h : store.Renames r store') (hordered : store.Ordered)
    (scope : ScopeId) (name : String) :
    store'.valueOf (r.scope scope) name = (store.valueOf scope name).renamed r := by
  rw [valueOf, valueOf, h.find?_eq hordered]
  cases store.find? scope name with
  | some value => rfl
  | none => cases Builtin.ofName? name <;> rfl

/-! ### New scopes and bindings -/

theorem Ordered.addScope (h : store.Ordered) {outer : Option ScopeId}
    (houter : ∀ scope ∈ outer, scope < store.next) : (store.addScope outer).Ordered := by
  intro id other hother
  rw [outer?_addScope] at hother
  split at hother
  case isTrue hid => exact hid ▸ houter other hother
  case isFalse => exact h id other hother

theorem Renames.addScope (h : store.Renames r store') (outer : Option ScopeId) :
    (store.addScope outer).Renames r (store'.addScope (outer.map r.scope)) where
  next made := by
    rw [next_addScope, next_addScope, Nat.add_assoc, Nat.add_assoc, h.next]
  outer id := by
    have hnext : r.scope store.next = store'.next := h.next 0
    rw [outer?_addScope, outer?_addScope, ← hnext, h.outer]
    by_cases hid : id = store.next
    · rw [if_pos hid, if_pos (congrArg r.scope hid)]
    · rw [if_neg hid, if_neg fun heq => hid (r.increasing.injective heq)]
  bindings id := by rw [bindings_addScope, bindings_addScope, h.bindings]

theorem Renames.bind (h : store.Renames r store') (scope : ScopeId) (name : String)
    (value : Value) :
    (store.bind scope name value).Renames r
      (store'.bind (r.scope scope) name (value.renamed r)) where
  next made := by rw [next_bind, next_bind, h.next]
  outer id := by rw [outer?_bind, outer?_bind, h.outer]
  bindings id := by
    have hnext : r.scope store.next = store'.next := h.next 0
    by_cases hsame : id = scope
    · subst hsame
      by_cases hlt : id < store.next
      · have hlt' : r.scope id < store'.next := hnext ▸ r.increasing hlt
        rw [bindings_bind_self hlt, bindings_bind_self hlt', h.bindings, Table.insert_mapValues]
      · have hle : store.next ≤ id := Nat.le_of_not_lt hlt
        have hle' : store'.next ≤ r.scope id := hnext ▸ r.increasing.monotone hle
        rw [bindings_of_next_le (Nat.le_trans (Nat.le_of_eq (next_bind ..)) hle),
          bindings_of_next_le (Nat.le_trans (Nat.le_of_eq (next_bind ..)) hle')]
        rfl
    · have hother : r.scope id ≠ r.scope scope := fun heq => hsame (r.increasing.injective heq)
      rw [bindings_bind_of_ne hsame, bindings_bind_of_ne hother, h.bindings]

theorem Renames.bindAll (h : store.Renames r store') (scope : ScopeId)
    (entries : List (String × Value)) :
    (store.bindAll scope entries).Renames r
      (store'.bindAll (r.scope scope) (Table.mapValues (Value.renamed r) entries)) := by
  induction entries generalizing store store' with
  | nil => exact h
  | cons entry rest ih => exact ih (h.bind scope entry.1 entry.2)

end Store

/-! ## Machines -/

/-- All scopes lie inside scopes that were opened before them, and all bound values belong to the
machine. -/
structure Machine.Consistent (machine : Machine) : Prop where
  ordered : machine.store.Ordered
  bound : machine.store.Holds (Value.Belongs machine)

/-- A machine has what a consistent machine has, under new numbers, and it has written the same. The
logs need not be the same. -/
structure Machine.Renames (r : Renaming) (machine machine' : Machine) : Prop where
  consistent : machine.Consistent
  store : machine.store.Renames r machine'.store
  closures : ∀ made, r.closure (machine.closures + made) = machine'.closures + made
  console : machine'.console = machine.console

namespace Machine

variable {r : Renaming} {machine machine' middle final : Machine}

theorem Precedes.refl (machine : Machine) : machine.Precedes machine :=
  ⟨Nat.le_refl _, Nat.le_refl _⟩

theorem Precedes.trans (h : machine.Precedes middle) (h' : middle.Precedes final) :
    machine.Precedes final :=
  ⟨Nat.le_trans h.scopes h'.scopes, Nat.le_trans h.closures h'.closures⟩

theorem Precedes.of_eq (hstore : machine.store.next = final.store.next)
    (hclosures : machine.closures = final.closures) : machine.Precedes final :=
  ⟨Nat.le_of_eq hstore, Nat.le_of_eq hclosures⟩

theorem precedes_trace (level : Int) (event : TraceEvent) :
    machine.Precedes (machine.trace level event) := by
  rw [trace_eq]
  exact .of_eq rfl rfl

theorem precedes_addScope (machine : Machine) (outer : Option ScopeId) :
    machine.Precedes { machine with store := machine.store.addScope outer } :=
  ⟨Nat.le_trans (Nat.le_succ _) (Nat.le_of_eq (Store.next_addScope outer).symm), Nat.le_refl _⟩

theorem precedes_bindAll (machine : Machine) (scope : ScopeId) (entries : List (String × Value)) :
    machine.Precedes { machine with store := machine.store.bindAll scope entries } :=
  .of_eq (Store.next_bindAll scope entries).symm rfl

theorem precedes_bind (machine : Machine) (scope : ScopeId) (name : String) (value : Value) :
    machine.Precedes { machine with store := machine.store.bind scope name value } :=
  machine.precedes_bindAll scope [(name, value)]

theorem Consistent.initial : Machine.initial.Consistent where
  ordered := by
    refine Store.Ordered.addScope (fun id outer houter => ?_) nofun
    rw [Store.outer?_of_next_le (Nat.zero_le id)] at houter
    cases houter
  bound := (Store.holds_empty _).addScope none

/-- A machine stays consistent if it gets no more than scopes, links and values that are consistent
with it. -/
theorem Consistent.of_precedes (h : machine.Consistent) (hprecedes : machine.Precedes final)
    (hordered : final.store.Ordered)
    (hbound : machine.store.Holds (Value.Belongs final) →
      final.store.Holds (Value.Belongs final)) : final.Consistent :=
  ⟨hordered, hbound (h.bound.mono fun _ hvalue => hvalue.mono hprecedes)⟩

/-- A machine with the same scopes and closures is as consistent. -/
theorem Consistent.of_store_eq (h : machine.Consistent) (hstore : final.store = machine.store)
    (hclosures : final.closures = machine.closures) : final.Consistent := by
  refine h.of_precedes (.of_eq (by rw [hstore]) hclosures.symm) (hstore ▸ h.ordered) ?_
  rw [hstore]
  exact id

theorem Consistent.addScope (h : machine.Consistent) {outer : Option ScopeId}
    (houter : ∀ scope ∈ outer, scope < machine.store.next) :
    { machine with store := machine.store.addScope outer }.Consistent := by
  exact h.of_precedes (machine.precedes_addScope outer) (h.ordered.addScope houter) fun hbound =>
    hbound.addScope outer

theorem Consistent.bindAll (h : machine.Consistent) (scope : ScopeId)
    {entries : List (String × Value)} (hentries : ∀ entry ∈ entries, entry.2.Belongs machine) :
    { machine with store := machine.store.bindAll scope entries }.Consistent := by
  have hprecedes := machine.precedes_bindAll scope entries
  refine h.of_precedes hprecedes (fun id outer houter => ?_) fun hbound => ?_
  · rw [Store.outer?_bindAll] at houter
    exact h.ordered id outer houter
  · exact hbound.bindAll scope fun entry hentry => (hentries entry hentry).mono hprecedes

theorem Consistent.bind (h : machine.Consistent) (scope : ScopeId) (name : String) {value : Value}
    (hvalue : value.Belongs machine) :
    { machine with store := machine.store.bind scope name value }.Consistent := by
  have hentries : ∀ entry ∈ [(name, value)], entry.2.Belongs machine :=
    List.forall_mem_singleton.2 hvalue
  exact h.bindAll scope hentries

theorem Consistent.makeClosure (h : machine.Consistent) :
    { machine with closures := machine.closures + 1 }.Consistent :=
  h.of_precedes ⟨Nat.le_refl _, Nat.le_succ _⟩ h.ordered id

theorem Consistent.belongs_valueOf (h : machine.Consistent) (scope : ScopeId) (name : String) :
    (machine.store.valueOf scope name).Belongs machine := by
  rw [Store.valueOf]
  split
  case h_1 value hfound => exact h.bound.of_find? hfound
  case h_2 =>
    split
    · exact .builtin _
    · exact .error _

theorem Renames.trace (h : machine.Renames r machine') (level : Int) (event event' : TraceEvent) :
    (machine.trace level event).Renames r (machine'.trace level event') := by
  rw [trace_eq, trace_eq]
  exact ⟨h.consistent.of_store_eq rfl rfl, h.store, h.closures, h.console⟩

theorem Renames.addScope (h : machine.Renames r machine') {outer : Option ScopeId}
    (houter : ∀ scope ∈ outer, scope < machine.store.next) :
    { machine with store := machine.store.addScope outer }.Renames r
      { machine' with store := machine'.store.addScope (outer.map r.scope) } :=
  ⟨h.consistent.addScope houter, h.store.addScope outer, h.closures, h.console⟩

theorem Renames.bindAll (h : machine.Renames r machine') (scope : ScopeId)
    {entries : List (String × Value)} (hentries : ∀ entry ∈ entries, entry.2.Belongs machine) :
    { machine with store := machine.store.bindAll scope entries }.Renames r
      { machine' with
        store :=
          machine'.store.bindAll (r.scope scope) (Table.mapValues (Value.renamed r) entries) } :=
  ⟨h.consistent.bindAll scope hentries, h.store.bindAll scope entries, h.closures, h.console⟩

theorem Renames.bind (h : machine.Renames r machine') (scope : ScopeId) (name : String)
    {value : Value} (hvalue : value.Belongs machine) :
    { machine with store := machine.store.bind scope name value }.Renames r
      { machine' with store := machine'.store.bind (r.scope scope) name (value.renamed r) } :=
  ⟨h.consistent.bind scope name hvalue, h.store.bind scope name value, h.closures, h.console⟩

end Machine

end MonkeyLanguage
