-- SUMMARY: Machines that are alike, and computations that keep them so.
import MonkeyLanguage.Proofs.Alike.Value
import MonkeyLanguage.Proofs.Run.Arrival
import MonkeyLanguage.Proofs.Run.Contents
import MonkeyLanguage.Proofs.Scoping.Store

/-!
# Machines that are alike

Two machines are alike if their scopes have the same numbers and lie inside each other in the same
way, and if the scopes that count bind the names that count to alike values. Of the scopes that
do not count nothing is said, so an evaluation must never get to them: the way outward from a scope
that counts leads to such scopes only, and all scopes count that are yet to be opened.
-/

namespace MonkeyLanguage

/-! ## Tables of names that count -/

namespace Table

variable {ν : Type}

/-- The part of a table under the names that count. -/
def restrict (names : String → Bool) (table : List (String × ν)) : List (String × ν) :=
  table.filter fun entry => names entry.1

variable {names : String → Bool}

theorem restrict_insert {name : String} (h : names name = true) (value : ν)
    (table : List (String × ν)) :
    restrict names (insert name value table) = insert name value (restrict names table) := by
  induction table with
  | nil => simp [restrict, insert, h]
  | cons entry rest ih =>
      simp only [restrict] at ih
      by_cases hsame : entry.1 = name
      · simp [restrict, insert, hsame, h]
      · cases hentry : names entry.1 <;> simp [restrict, insert, hsame, hentry, ih]

theorem find?_restrict {name : String} (h : names name = true) (table : List (String × ν)) :
    find? name (restrict names table) = find? name table := by
  induction table with
  | nil => rfl
  | cons entry rest ih =>
      simp only [restrict] at ih
      by_cases hsame : entry.1 = name
      · simp [restrict, find?, hsame, h]
      · cases hentry : names entry.1 <;> simp [restrict, find?, hsame, hentry, ih]

theorem restrict_eq_self (h : ∀ name, names name = true) (table : List (String × ν)) :
    restrict names table = table :=
  List.filter_eq_self.2 fun entry _ => h entry.1

end Table

/-! ## Stores -/

/-- The stores have the same scopes, in the same places, and the scopes that count bind the names
that count to alike values. -/
structure Store.Alike (c : Correspondence) (store store' : Store) : Prop where
  next : store.next = store'.next
  fresh : ∀ id, store.next ≤ id → c.scopes id
  outer : ∀ id, c.scopes id → store.outer? id = store'.outer? id
  closed : ∀ id outer, c.scopes id → store.outer? id = some outer → c.scopes outer
  bindings : ∀ id, c.scopes id →
    Table.Alike (Value.Alike c) (Table.restrict c.names (store.bindings id))
      (Table.restrict c.names (store'.bindings id))

namespace Store.Alike

variable {c : Correspondence} {store store' : Store} (h : store.Alike c store')

include h

theorem chainUpTo_eq (length : Nat) {scope : ScopeId} (hscope : c.scopes scope) :
    store.chainUpTo length scope = store'.chainUpTo length scope ∧
      ∀ id ∈ store.chainUpTo length scope, c.scopes id := by
  induction length generalizing scope with
  | zero => exact ⟨rfl, nofun⟩
  | succ length ih =>
      rw [chainUpTo, chainUpTo, ← h.outer scope hscope]
      cases houter : store.outer? scope with
      | none => exact ⟨rfl, List.forall_mem_singleton.2 hscope⟩
      | some outer =>
          obtain ⟨heq, hcounts⟩ := ih (h.closed scope outer hscope houter)
          exact ⟨congrArg (scope :: ·) heq, List.forall_mem_cons.2 ⟨hscope, hcounts⟩⟩

theorem find?_rel {scope : ScopeId} (hscope : c.scopes scope) {name : String}
    (hname : c.names name = true) :
    Option.Rel (Value.Alike c) (store.find? scope name) (store'.find? scope name) := by
  obtain ⟨heq, hcounts⟩ := h.chainUpTo_eq (scope + 1) hscope
  rw [find?, find?, chain, chain, ← heq]
  generalize store.chainUpTo (scope + 1) scope = ids at hcounts
  induction ids with
  | nil => exact .none
  | cons id rest ih =>
      obtain ⟨hid, hrest⟩ := List.forall_mem_cons.1 hcounts
      have hfound := (h.bindings id hid).find? name
      rw [Table.find?_restrict hname, Table.find?_restrict hname] at hfound
      rw [List.findSome?_cons, List.findSome?_cons]
      generalize Table.find? name (store.bindings id) = found at hfound ⊢
      generalize Table.find? name (store'.bindings id) = found' at hfound ⊢
      cases hfound with
      | some hvalue => exact .some hvalue
      | none => exact ih hrest

/-- Where all names count, no binding of a scope that counts is left out of the comparison. -/
theorem bindings_alike (hnames : ∀ name, c.names name = true) (id : ScopeId)
    (hid : c.scopes id) :
    Table.Alike (Value.Alike c) (store.bindings id) (store'.bindings id) := by
  have hbindings := h.bindings id hid
  rwa [Table.restrict_eq_self hnames, Table.restrict_eq_self hnames] at hbindings

/-- A name stands for alike values. -/
theorem valueOf {scope : ScopeId} (hscope : c.scopes scope) {name : String}
    (hname : c.names name = true) :
    (store.valueOf scope name).Alike c (store'.valueOf scope name) := by
  have hfound := h.find?_rel hscope hname
  rw [Store.valueOf, Store.valueOf]
  generalize store.find? scope name = found at hfound ⊢
  generalize store'.find? scope name = found' at hfound ⊢
  cases hfound with
  | some hvalue => exact hvalue
  | none =>
      cases Builtin.ofName? name with
      | some builtin => exact .builtin builtin
      | none => exact .error _

theorem addScope {outer : ScopeId} (houter : c.scopes outer) :
    (store.addScope (some outer)).Alike c (store'.addScope (some outer)) where
  next := by rw [next_addScope, next_addScope, h.next]
  fresh id hid := by
    rw [next_addScope] at hid
    exact h.fresh id (Nat.le_of_succ_le hid)
  outer id hid := by rw [outer?_addScope, outer?_addScope, h.next, h.outer id hid]
  closed id other hid hother := by
    rw [outer?_addScope] at hother
    split at hother
    · cases hother
      exact houter
    · exact h.closed id other hid hother
  bindings id hid := by
    rw [bindings_addScope, bindings_addScope]
    exact h.bindings id hid

theorem bind (scope : ScopeId) {name : String} (hname : c.names name = true) {value value' : Value}
    (hvalue : value.Alike c value') :
    (store.bind scope name value).Alike c (store'.bind scope name value') where
  next := by rw [next_bind, next_bind, h.next]
  fresh id hid := h.fresh id (next_bind scope name value ▸ hid)
  outer id hid := by rw [outer?_bind, outer?_bind, h.outer id hid]
  closed id other hid hother := h.closed id other hid (outer?_bind scope name value id ▸ hother)
  bindings id hid := by
    by_cases hsame : id = scope
    · subst hsame
      by_cases hlt : id < store.next
      · rw [bindings_bind_self hlt, bindings_bind_self (h.next ▸ hlt), Table.restrict_insert hname,
          Table.restrict_insert hname]
        exact (h.bindings id hid).insert name hvalue
      · have hle : (store.bind id name value).next ≤ id :=
          Nat.le_trans (Nat.le_of_eq (next_bind ..)) (Nat.le_of_not_lt hlt)
        have hle' : (store'.bind id name value').next ≤ id :=
          Nat.le_trans (Nat.le_of_eq ((next_bind ..).trans h.next.symm)) (Nat.le_of_not_lt hlt)
        rw [bindings_of_next_le hle, bindings_of_next_le hle']
        exact .nil
    · rw [bindings_bind_of_ne hsame, bindings_bind_of_ne hsame]
      exact h.bindings id hid

theorem bindAll (scope : ScopeId) {names : List String}
    (hnames : ∀ name ∈ names, c.names name = true) {values values' : List Value}
    (hvalues : List.Forall₂ (Value.Alike c) values values') :
    (store.bindAll scope (names.zip values)).Alike c
      (store'.bindAll scope (names.zip values')) := by
  induction hvalues generalizing names store store' with
  | nil =>
      rw [List.zip_nil_right]
      exact h
  | cons hvalue _ ih =>
      cases names with
      | nil => exact h
      | cons name names =>
          obtain ⟨hname, hrest⟩ := List.forall_mem_cons.1 hnames
          exact ih (h.bind scope hname hvalue) hrest

end Store.Alike

/-! ## Machines -/

namespace TraceEvent

variable {value value' : Value}

theorem line_bound (name : String) (h : value.inspect = value'.inspect) :
    (bound name value).line = (bound name value').line :=
  congrArg (fun text => "let " ++ name ++ " = " ++ text) h

theorem line_decided (h : value.inspect = value'.inspect)
    (htruthy : value.isTruthy = value'.isTruthy) :
    (decided value).line = (decided value').line := by
  change "if condition " ++ value.inspect ++ " -> " ++
      (if value.isTruthy then "True" else "False") =
    "if condition " ++ value'.inspect ++ " -> " ++ (if value'.isTruthy then "True" else "False")
  rw [h, htruthy]

end TraceEvent

/-- The machines agree in what counts, and closures that are made from now on correspond. -/
structure Machine.Alike (c : Correspondence) (machine machine' : Machine) : Prop where
  store : machine.store.Alike c machine'.store
  identities : ∀ made, c.identities (machine.closures + made) (machine'.closures + made)
  console : c.consoles machine.console machine'.console
  log : c.logs machine.log machine'.log

namespace Machine

theorem trace_eq (level : Int) (event : TraceEvent) (machine : Machine) :
    machine.trace level event = { machine with log := machine.log.recordAt level event } := by
  rw [trace, TraceLog.recordAt]
  split <;> rfl

theorem Alike.trace {c : Correspondence} {machine machine' : Machine} (h : machine.Alike c machine')
    {event event' : TraceEvent} (hlevel : event.level = event'.level)
    (hline : event.line = event'.line) :
    (machine.trace c.host.traceLevel event).Alike c (machine'.trace c.host'.traceLevel event') := by
  rw [trace_eq, trace_eq]
  exact ⟨h.store, h.identities, h.console, c.record hlevel hline h.log⟩

end Machine

/-! ## Computations -/

namespace Eval

variable {α α' β β' : Type}

/-- Results that are related, or the same fault, and alike machines. -/
inductive ResultsAlike (c : Correspondence) (related : α → α' → Prop) :
    EStateM.Result Fault Machine α → EStateM.Result Fault Machine α' → Prop where
  | ok {result : α} {result' : α'} {machine machine' : Machine} :
      related result result' → machine.Alike c machine' →
      ResultsAlike c related (.ok result machine) (.ok result' machine')
  | error (fault : Fault) {machine machine' : Machine} :
      machine.Alike c machine' →
      ResultsAlike c related (.error fault machine) (.error fault machine')

/-- On alike machines, the two computations end alike. -/
def Alike (c : Correspondence) (related : α → α' → Prop) (computation : Eval α)
    (computation' : Eval α') : Prop :=
  ∀ machine machine', machine.Alike c machine' →
    ResultsAlike c related (computation machine) (computation' machine')

variable {c : Correspondence} {related : α → α' → Prop} {relatedNext : β → β' → Prop}

theorem alike_pure {result : α} {result' : α'} (h : related result result') :
    Alike c related (pure result) (pure result') :=
  fun _ _ hmachine => .ok h hmachine

theorem alike_throw (fault : Fault) : Alike c related (throw fault) (throw fault) :=
  fun _ _ hmachine => .error fault hmachine

theorem Alike.bind {computation : Eval α} {computation' : Eval α'} {next : α → Eval β}
    {next' : α' → Eval β'} (h : Alike c related computation computation')
    (hnext : ∀ result result', related result result' →
      Alike c relatedNext (next result) (next' result')) :
    Alike c relatedNext (computation >>= next) (computation' >>= next') := by
  intro machine machine' hmachine
  have hfirst := h machine machine' hmachine
  cases hresult : computation machine with
  | ok result middle =>
      cases hresult' : computation' machine' with
      | ok result' middle' =>
          rw [hresult, hresult'] at hfirst
          rw [ok_bind hresult, ok_bind hresult']
          cases hfirst with
          | ok hrelated hmiddle => exact hnext result result' hrelated middle middle' hmiddle
      | error fault' middle' =>
          rw [hresult, hresult'] at hfirst
          cases hfirst
  | error fault middle =>
      cases hresult' : computation' machine' with
      | ok result' middle' =>
          rw [hresult, hresult'] at hfirst
          cases hfirst
      | error fault' middle' =>
          rw [hresult, hresult'] at hfirst
          rw [error_bind hresult, error_bind hresult']
          cases hfirst with
          | error _ hmiddle => exact .error fault hmiddle

/-- Values go on alike, and errors go up alike. -/
theorem Alike.withValue {computation computation' : Eval Value} {next next' : Value → Eval Value}
    (h : Alike c (Value.Alike c) computation computation')
    (hnext : ∀ value value', value.Alike c value' →
      Alike c (Value.Alike c) (next value) (next' value')) :
    Alike c (Value.Alike c) (Eval.withValue computation next)
      (Eval.withValue computation' next') := by
  apply h.bind
  intro value value' hvalue
  rw [← hvalue.isError_eq]
  split
  · exact alike_pure hvalue
  · exact hnext value value' hvalue

theorem alike_trace {event event' : TraceEvent} (hlevel : event.level = event'.level)
    (hline : event.line = event'.line) :
    Alike c (fun _ _ => True) (Eval.trace c.host.traceLevel event)
      (Eval.trace c.host'.traceLevel event') :=
  fun _ _ hmachine => .ok trivial (hmachine.trace hlevel hline)

theorem alike_makeClosure {parameters parameters' : List Node} {body body' : Node}
    {scope : ScopeId} (hparameters : List.Forall₂ c.nodes parameters parameters')
    (hbody : c.nodes body body') (hscope : c.scopes scope) :
    Alike c (Value.Alike c) (Eval.makeClosure parameters body scope)
      (Eval.makeClosure parameters' body' scope) := by
  intro machine machine' hmachine
  refine .ok (.closure (hmachine.identities 0) hparameters hbody hscope) ?_
  refine ⟨hmachine.store, fun made => ?_, hmachine.console, hmachine.log⟩
  have hidentity := hmachine.identities (made + 1)
  rwa [Nat.add_comm made 1, ← Nat.add_assoc, ← Nat.add_assoc] at hidentity

theorem alike_callBuiltin (builtin : Builtin) {arguments arguments' : List Value}
    (h : List.Forall₂ (Value.Alike c) arguments arguments') :
    Alike c (Value.Alike c) (Eval.callBuiltin c.host builtin arguments)
      (Eval.callBuiltin c.host' builtin arguments') := by
  rw [Eval.callBuiltin, Eval.callBuiltin, h.length_eq]
  apply (alike_trace rfl rfl).bind
  intro _ _ _ machine machine' hmachine
  obtain ⟨hvalue, hconsole⟩ := Value.alike_runBuiltin h builtin hmachine.console
  exact .ok hvalue ⟨hmachine.store, hmachine.identities, hconsole, hmachine.log⟩

/-! ## Binding names -/

theorem boundName_eq {name name' : Node} (h : c.nodes name name') :
    name.boundName = name'.boundName ∧
      ∀ text, name.boundName = .ok text → c.names text = true := by
  cases c.matches_of_nodes h with
  | identifier hname =>
      refine ⟨rfl, fun text htext => ?_⟩
      cases htext
      exact hname
  | _ => exact ⟨rfl, nofun⟩

theorem parameterNames_cons (parameter : Node) (rest : List Node) :
    Node.parameterNames (parameter :: rest) = (do
      let name ← parameter.boundName
      let names ← Node.parameterNames rest
      pure (name :: names)) :=
  List.mapM_cons

theorem parameterNames_eq {parameters parameters' : List Node}
    (h : List.Forall₂ c.nodes parameters parameters') :
    Node.parameterNames parameters = Node.parameterNames parameters' ∧
      ∀ names, Node.parameterNames parameters = .ok names →
        ∀ name ∈ names, c.names name = true := by
  induction h with
  | nil =>
      refine ⟨rfl, fun names hnames => ?_⟩
      cases hnames
      exact nofun
  | @cons parameter parameter' rest rest' hparameter _ ih =>
      obtain ⟨heq, hcounts⟩ := boundName_eq hparameter
      obtain ⟨hrest, hrestCount⟩ := ih
      rw [parameterNames_cons, parameterNames_cons, ← heq, ← hrest]
      refine ⟨rfl, fun names hnames => ?_⟩
      cases hname : parameter.boundName with
      | error fault =>
          rw [hname] at hnames
          cases hnames
      | ok name =>
          cases hothers : Node.parameterNames rest with
          | error fault =>
              rw [hname, hothers] at hnames
              cases hnames
          | ok others =>
              rw [hname, hothers] at hnames
              cases hnames
              exact List.forall_mem_cons.2 ⟨hcounts name hname, hrestCount others hothers⟩

theorem alike_bindNode (scope : ScopeId) {name name' : Node} (hname : c.nodes name name')
    {value value' : Value} (hvalue : value.Alike c value') :
    Alike c (Value.Alike c) (Eval.bindNode c.host scope name value)
      (Eval.bindNode c.host' scope name' value') := by
  intro machine machine' hmachine
  obtain ⟨heq, hcounts⟩ := boundName_eq hname
  rw [Moment.bindNode_eq, Moment.bindNode_eq, ← heq]
  cases htext : name.boundName with
  | error fault => exact .error fault hmachine
  | ok text =>
      have htraced : (machine.trace c.host.traceLevel (.bound text value)).Alike c
          (machine'.trace c.host'.traceLevel (.bound text value')) :=
        hmachine.trace rfl (TraceEvent.line_bound text hvalue.inspect_eq)
      exact .ok hvalue ⟨htraced.store.bind scope (hcounts text htext) hvalue, htraced.identities,
        htraced.console, htraced.log⟩

theorem alike_enter {parameters parameters' : List Node}
    (hparameters : List.Forall₂ c.nodes parameters parameters') {scope : ScopeId}
    (hscope : c.scopes scope) {arguments arguments' : List Value}
    (harguments : List.Forall₂ (Value.Alike c) arguments arguments') :
    Alike c (fun inner inner' => inner = inner' ∧ c.scopes inner)
      (Eval.enter c.host parameters scope arguments)
      (Eval.enter c.host' parameters' scope arguments') := by
  intro machine machine' hmachine
  obtain ⟨heq, hcounts⟩ := parameterNames_eq hparameters
  rw [Moment.enter_eq, Moment.enter_eq, ← heq]
  cases hnames : Node.parameterNames parameters with
  | error fault => exact .error fault hmachine
  | ok names =>
      have htraced : (machine.trace c.host.traceLevel (.called names arguments.length)).Alike c
          (machine'.trace c.host'.traceLevel (.called names arguments'.length)) :=
        hmachine.trace rfl (by rw [harguments.length_eq])
      refine .ok ⟨htraced.store.next, htraced.store.fresh _ (Nat.le_refl _)⟩
        ⟨?_, htraced.identities, htraced.console, htraced.log⟩
      rw [← htraced.store.next]
      exact (htraced.store.addScope hscope).bindAll _ (hcounts names hnames) harguments

end Eval

end MonkeyLanguage
