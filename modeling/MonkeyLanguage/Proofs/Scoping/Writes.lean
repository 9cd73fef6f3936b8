-- SUMMARY: Evaluations bind names in their own scope only, and calls in no scope that was there.
import MonkeyLanguage.Proofs.Run.Arrival
import MonkeyLanguage.Proofs.Run.Contents
import MonkeyLanguage.Proofs.Scoping.Store

/-!
# What evaluations change

Scopes are shared, so any evaluation could change what others see. It does not: an evaluation
binds names in the scope that it works in and opens new scopes, and that is all. A call works in
a scope of its own, so it leaves all scopes that were there before as they were. Both hold
whatever comes out, a value, an error or a fault.

The proof goes over an evaluation once, for any relation between machines that holds across each
of the few things that an evaluation does to the machine itself (`Passage`).
-/

namespace MonkeyLanguage

namespace Eval

variable {α β : Type} {R : Machine → Machine → Prop}

/-- The machine after a computation, whether that ends with a value or with a fault. -/
def machineAfter (computation : Eval α) (machine : Machine) : Machine :=
  match computation machine with
  | .ok _ final => final
  | .error _ final => final

/-- The computation takes every machine to one that is related to it. -/
def Moves (R : Machine → Machine → Prop) (computation : Eval α) : Prop :=
  ∀ machine, R machine (computation.machineAfter machine)

theorem machineAfter_of_ok {computation : Eval α} {machine final : Machine} {value : α}
    (h : computation machine = .ok value final) : computation.machineAfter machine = final := by
  rw [machineAfter, h]

theorem machineAfter_of_error {computation : Eval α} {machine final : Machine} {fault : Fault}
    (h : computation machine = .error fault final) : computation.machineAfter machine = final := by
  rw [machineAfter, h]

theorem machineAfter_bind_of_ok {computation : Eval α} {next : α → Eval β}
    {machine middle : Machine} {value : α} (h : computation machine = .ok value middle) :
    (computation >>= next).machineAfter machine = (next value).machineAfter middle := by
  rw [machineAfter, ok_bind h, machineAfter]

theorem machineAfter_bind_of_error {computation : Eval α} {next : α → Eval β}
    {machine middle : Machine} {fault : Fault} (h : computation machine = .error fault middle) :
    (computation >>= next).machineAfter machine = middle := by
  rw [machineAfter, error_bind h]

theorem machineAfter_received (computation : Eval Value) (machine : Machine) :
    (do let value ← computation; pure value.received : Eval Value).machineAfter machine =
      computation.machineAfter machine := by
  cases h : computation machine with
  | ok value final => rw [machineAfter_bind_of_ok h, machineAfter_of_ok h]; rfl
  | error fault final => rw [machineAfter_bind_of_error h, machineAfter_of_error h]

theorem machine_perform (work : Eval α) (machine : Machine) :
    (work.perform machine).machine = work.machineAfter { machine with console := .empty } := by
  rw [perform, machineAfter]
  split <;> simp_all

end Eval

/-! ## Relations that hold across an evaluation -/

/-- A relation between machines before and after, for evaluations in a scope: it goes on where it
ended, and it holds across an event, a binding in the scope and a new closure. -/
structure Passage (host : Host) (scope : ScopeId) (R : Machine → Machine → Prop) : Prop where
  refl : ∀ machine, R machine machine
  trans : ∀ first second third, R first second → R second third → R first third
  event : ∀ event machine, R machine (machine.trace host.traceLevel event)
  binding : ∀ name value machine, R machine
    { machine with store := machine.store.bind scope name value }
  closure : ∀ machine, R machine { machine with closures := machine.closures + 1 }

namespace Passage

open Eval

variable {host : Host} {scope : ScopeId} {R : Machine → Machine → Prop} {α β : Type}
  (h : Passage host scope R)

include h

theorem pure (value : α) : Moves R (pure value) := h.refl

theorem throw (fault : Fault) : Moves R (throw fault : Eval α) := h.refl

theorem bind {computation : Eval α} {next : α → Eval β} (hfirst : Moves R computation)
    (hnext : ∀ value, Moves R (next value)) : Moves R (computation >>= next) := by
  intro machine
  have hmoved := hfirst machine
  cases hresult : computation machine with
  | ok value middle =>
      rw [machineAfter_of_ok hresult] at hmoved
      rw [machineAfter_bind_of_ok hresult]
      exact h.trans _ _ _ hmoved (hnext value middle)
  | error fault middle =>
      rw [machineAfter_of_error hresult] at hmoved
      rw [machineAfter_bind_of_error hresult]
      exact hmoved

theorem withValue {computation : Eval Value} {next : Value → Eval Value}
    (hfirst : Moves R computation) (hnext : ∀ value, Moves R (next value)) :
    Moves R (Eval.withValue computation next) := by
  apply h.bind hfirst
  intro value
  split
  · exact h.pure value
  · exact hnext value

theorem trace (event : TraceEvent) : Moves R (Eval.trace host.traceLevel event) := h.event event

theorem bindNode (name : Node) (value : Value) :
    Moves R (Eval.bindNode host scope name value) := by
  intro machine
  cases hname : name.boundName with
  | error fault => cases name <;> first | exact h.refl machine | cases hname
  | ok text =>
      cases name with
      | identifier token name =>
          exact h.trans _ _ _ (h.event (.bound name value) machine) (h.binding name value _)
      | _ => cases hname

variable {call : Call}

mutual

theorem moves_evaluate (hcall : ∀ function arguments, Moves R (call function arguments))
    (node : Node) : Moves R (evaluate host call scope node) := by
  cases node with
  | program token statements =>
      rw [evaluate]
      exact h.bind (moves_sequence hcall .null statements) fun value => h.pure value.received
  | letStatement token name value =>
      rw [evaluate]
      exact h.withValue (moves_evaluate hcall value) fun value => h.bindNode name value
  | returnStatement token value =>
      rw [evaluate]
      exact h.withValue (moves_evaluate hcall value) fun value => h.pure (Value.returned value)
  | expressionStatement token value =>
      rw [evaluate]
      exact moves_evaluate hcall value
  | block token statements =>
      rw [evaluate]
      exact moves_sequence hcall .null statements
  | identifier token name => exact h.refl
  | integer token value => exact h.refl
  | string token text => exact h.refl
  | boolean token value => exact h.refl
  | prefixed token operator right =>
      rw [evaluate]
      exact h.withValue (moves_evaluate hcall right) fun right => h.pure (right.prefixed operator)
  | binary token operator left right =>
      rw [evaluate]
      apply h.withValue (moves_evaluate hcall left)
      intro left
      exact h.withValue (moves_evaluate hcall right) fun right =>
        h.pure (left.binary operator right host.repetitionLimit)
  | conditional token condition consequence alternative =>
      rw [Moment.evaluate_conditional]
      apply h.withValue (moves_evaluate hcall condition)
      intro condition
      refine h.bind (h.trace _) fun _ => ?_
      split
      · exact moves_evaluate hcall consequence
      · cases alternative with
        | missing => exact h.pure _
        | _ => exact moves_evaluate hcall _
  | function token parameters body => exact h.closure
  | call token callee arguments =>
      rw [evaluate]
      apply h.withValue (moves_evaluate hcall callee)
      intro function
      refine h.bind (moves_all hcall arguments) fun values => ?_
      cases values with
      | ok arguments => exact hcall function arguments
      | error cause => exact h.pure _
  | array token elements =>
      rw [evaluate]
      refine h.bind (moves_all hcall elements) fun values => ?_
      cases values with
      | ok elements => exact h.pure _
      | error cause => exact h.pure _
  | hash token pairs =>
      rw [evaluate]
      exact moves_pairs hcall [] pairs
  | index token target key =>
      rw [evaluate]
      apply h.withValue (moves_evaluate hcall target)
      intro target
      exact h.withValue (moves_evaluate hcall key) fun key => h.pure (target.lookUp key)
  | missing => exact h.throw .missingNode
  | foreign => exact h.throw .foreignNode

theorem moves_sequence (hcall : ∀ function arguments, Moves R (call function arguments))
    (last : Value) (statements : List Node) :
    Moves R (evaluateSequence host call scope last statements) := by
  cases statements with
  | nil => exact h.pure last
  | cons statement rest =>
      rw [evaluateSequence]
      refine h.bind (moves_evaluate hcall statement) fun value => ?_
      split
      · exact h.pure value
      · exact moves_sequence hcall value rest

theorem moves_all (hcall : ∀ function arguments, Moves R (call function arguments))
    (nodes : List Node) : Moves R (evaluateAll host call scope nodes) := by
  cases nodes with
  | nil => exact h.pure _
  | cons node rest =>
      rw [evaluateAll]
      refine h.bind (moves_evaluate hcall node) fun value => ?_
      split
      · exact h.pure _
      · refine h.bind (moves_all hcall rest) fun values => ?_
        cases values <;> exact h.pure _

theorem moves_pairs (hcall : ∀ function arguments, Moves R (call function arguments))
    (entries : List (HashKey × Value)) (pairs : List (Node × Node)) :
    Moves R (evaluatePairs host call scope entries pairs) := by
  match pairs with
  | [] => exact h.pure _
  | (key, value) :: rest =>
      rw [evaluatePairs]
      apply h.withValue (moves_evaluate hcall key)
      intro keyValue
      cases keyValue.hashKey? with
      | none => exact h.pure _
      | some hashKey =>
          exact h.withValue (moves_evaluate hcall value) fun value => moves_pairs hcall _ rest

end

end Passage

/-! ## Scopes before and after -/

namespace Store

/-- All scopes of one store are in another one, with the same bindings and the same scope around
each. -/
structure Extends (before after : Store) : Prop where
  next : before.next ≤ after.next
  bindings : ∀ id < before.next, after.bindings id = before.bindings id
  outer : ∀ id < before.next, after.outer? id = before.outer? id

/-- All scopes of one store are in another one. The scope around each is the same, and so are its
bindings, but for those of one scope, in which no name was unbound. -/
structure ChangesOnly (scope : ScopeId) (before after : Store) : Prop where
  next : before.next ≤ after.next
  others : ∀ id < before.next, id ≠ scope → after.bindings id = before.bindings id
  names : ∀ name ∈ Table.keys (before.bindings scope), name ∈ Table.keys (after.bindings scope)
  outer : ∀ id < before.next, after.outer? id = before.outer? id

variable {scope : ScopeId} {first second third : Store}

theorem Extends.refl (store : Store) : store.Extends store :=
  ⟨Nat.le_refl _, fun _ _ => rfl, fun _ _ => rfl⟩

theorem Extends.changesOnly (h : first.Extends second) (scope : ScopeId) :
    first.ChangesOnly scope second := by
  refine ⟨h.next, fun id hid _ => h.bindings id hid, fun name hname => ?_, h.outer⟩
  by_cases hscope : scope < first.next
  · rw [h.bindings scope hscope]
    exact hname
  · rw [bindings_of_next_le (Nat.le_of_not_lt hscope)] at hname
    cases hname

theorem ChangesOnly.trans (h : first.ChangesOnly scope second)
    (h' : second.ChangesOnly scope third) : first.ChangesOnly scope third where
  next := Nat.le_trans h.next h'.next
  others id hid hne :=
    (h'.others id (Nat.lt_of_lt_of_le hid h.next) hne).trans (h.others id hid hne)
  names name hname := h'.names name (h.names name hname)
  outer id hid := (h'.outer id (Nat.lt_of_lt_of_le hid h.next)).trans (h.outer id hid)

theorem changesOnly_bind (store : Store) (scope : ScopeId) (name : String) (value : Value) :
    store.ChangesOnly scope (store.bind scope name value) := by
  refine ⟨Nat.le_of_eq (next_bind ..).symm, fun id _ hne => bindings_bind_of_ne hne name value,
    fun other hother => ?_, fun id _ => outer?_bind ..⟩
  by_cases hscope : scope < store.next
  · rw [bindings_bind_self hscope]
    exact Table.mem_keys_insert.2 (.inr hother)
  · rw [bindings_of_next_le (Nat.le_of_not_lt hscope)] at hother
    cases hother

/-- What changes only a scope that was not there before leaves all others as they were. -/
theorem Extends.of_changesOnly (h : first.Extends second) (hscope : first.next ≤ scope)
    (h' : second.ChangesOnly scope third) : first.Extends third where
  next := Nat.le_trans h.next h'.next
  bindings id hid := by
    have hne : id ≠ scope := Nat.ne_of_lt (Nat.lt_of_lt_of_le hid hscope)
    exact (h'.others id (Nat.lt_of_lt_of_le hid h.next) hne).trans (h.bindings id hid)
  outer id hid := (h'.outer id (Nat.lt_of_lt_of_le hid h.next)).trans (h.outer id hid)

theorem extends_open (store : Store) (outer : Option ScopeId) (entries : List (String × Value)) :
    store.Extends ((store.addScope outer).bindAll store.next entries) := by
  refine ⟨?_, fun id hid => ?_, fun id hid => ?_⟩
  · rw [next_bindAll, next_addScope]
    exact Nat.le_succ _
  · rw [bindings_bindAll_of_ne (Nat.ne_of_lt hid), bindings_addScope]
  · rw [outer?_bindAll, outer?_addScope, if_neg (Nat.ne_of_lt hid)]

end Store

/-! ## Evaluations and calls -/

open Eval

theorem passage_changesOnly (host : Host) (scope : ScopeId) :
    Passage host scope fun before after => before.store.ChangesOnly scope after.store where
  refl machine := (Store.Extends.refl _).changesOnly scope
  trans _ _ _ h h' := h.trans h'
  event event machine := by
    rw [Moment.store_trace]
    exact (Store.Extends.refl _).changesOnly scope
  binding name value machine := machine.store.changesOnly_bind scope name value
  closure machine := (Store.Extends.refl machine.store).changesOnly scope

theorem store_of_enter {host : Host} {parameters : List Node} {scope inner : ScopeId}
    {arguments : List Value} {machine final : Machine}
    (h : Eval.enter host parameters scope arguments machine = .ok inner final) :
    inner = machine.store.next ∧ ∃ entries,
      final.store = (machine.store.addScope (some scope)).bindAll machine.store.next entries := by
  rw [Moment.enter_eq] at h
  cases hnames : Node.parameterNames parameters with
  | error fault =>
      rw [hnames] at h
      cases h
  | ok names =>
      rw [hnames] at h
      cases h
      rw [Moment.store_trace]
      exact ⟨rfl, _, rfl⟩

theorem machineAfter_of_enter_error {host : Host} {parameters : List Node} {scope : ScopeId}
    {arguments : List Value} {machine final : Machine} {fault : Fault}
    (h : Eval.enter host parameters scope arguments machine = .error fault final) :
    final = machine := by
  rw [Moment.enter_eq] at h
  cases hnames : Node.parameterNames parameters with
  | error cause =>
      rw [hnames] at h
      cases h
      rfl
  | ok names =>
      rw [hnames] at h
      cases h

/-- A call changes no scope that was there, if a body changes only the scope that it runs in. -/
theorem extends_applyWith {host : Host} {runBody : ScopeId → Node → Eval Value}
    (hbody : ∀ inner body, Moves (fun before after => before.store.ChangesOnly inner after.store)
      (runBody inner body)) (function : Value) (arguments : List Value) :
    Moves (fun before after => before.store.Extends after.store)
      (applyWith host runBody function arguments) := by
  intro machine
  cases function with
  | closure identity parameters body scope =>
      rw [Moment.applyWith_closure]
      split
      · exact .refl _
      · cases henter : Eval.enter host parameters scope arguments machine with
        | error fault final =>
            rw [machineAfter_bind_of_error henter, machineAfter_of_enter_error henter]
            exact .refl _
        | ok inner middle =>
            obtain ⟨rfl, entries, hstore⟩ := store_of_enter henter
            have hopened := machine.store.extends_open (some scope) entries
            rw [← hstore] at hopened
            have hran := hbody machine.store.next body middle
            rw [machineAfter_bind_of_ok henter, machineAfter_received]
            exact hopened.of_changesOnly (Nat.le_refl _) hran
  | builtin builtin =>
      change machine.store.Extends (machine.trace host.traceLevel (.calledBuiltin builtin _)).store
      rw [Moment.store_trace]
      exact .refl _
  | _ => exact .refl _

theorem extends_apply (host : Host) (depth : Nat) (function : Value) (arguments : List Value) :
    Moves (fun before after => before.store.Extends after.store)
      (apply host depth function arguments) := by
  induction depth generalizing function arguments with
  | zero =>
      refine extends_applyWith (fun inner body => ?_) function arguments
      exact (passage_changesOnly host inner).throw .recursionLimit
  | succ depth ih =>
      refine extends_applyWith (fun inner body => ?_) function arguments
      apply (passage_changesOnly host inner).moves_evaluate
      intro function arguments machine
      exact (ih function arguments machine).changesOnly inner

/-- Whatever comes out of it, an evaluation in a scope changes the bindings of no other scope that
was there before, keeps all names of its own scope bound, and moves no scope. A call changes no
scope that was there before at all. -/
theorem Settings.scopes_kept (settings : Settings) (machine : Machine) :
    (∀ scope node, machine.store.ChangesOnly scope
      ((settings.evaluate scope node).machineAfter machine).store) ∧
    ∀ function arguments, machine.store.Extends
      ((settings.call function arguments).machineAfter machine).store := by
  have hcalls := extends_apply settings.toHost settings.depth
  refine ⟨fun scope node => ?_, fun function arguments => hcalls function arguments machine⟩
  apply (passage_changesOnly settings.toHost scope).moves_evaluate
  intro function arguments machine
  exact (hcalls function arguments machine).changesOnly scope

end MonkeyLanguage
