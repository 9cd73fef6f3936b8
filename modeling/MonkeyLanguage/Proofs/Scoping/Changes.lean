-- SUMMARY: The changes that a run makes to the scopes, step by step.
import MonkeyLanguage.Proofs.Renaming.Machine
import MonkeyLanguage.Proofs.Scoping.Reach

/-!
# Changes of the scopes

There are two ways to change the scopes: one is opened, or a name is bound in one. What a step of a
run changes can be told from the moment before it: a `let` whose value has arrived binds its name,
and a call opens a scope and binds the arguments there. The store after the step is the store before
it with these changes made.

Links and functions refer to scopes by number. On a closed store all these numbers are those of
scopes that are there, and links lead to smaller ones. No step leads out of the closed stores.
-/

namespace MonkeyLanguage

/-- A change of the scopes. -/
inductive Change where
  | opened (outer : Option ScopeId)
  | bound (scope : ScopeId) (name : String) (value : Value)

/-- All functions in the value were made in scopes with smaller numbers than this. -/
def Value.Below (limit : ScopeId) (value : Value) : Prop :=
  ∀ scope, value.Captures scope → scope < limit

namespace Store

/-- A store after a change. -/
def apply (store : Store) : Change → Store
  | .opened outer => store.addScope outer
  | .bound scope name value => store.bind scope name value

/-- A store after several changes. -/
def replay (store : Store) (changes : List Change) : Store :=
  changes.foldl apply store

/-- All links lead to scopes that were opened before, and all functions that are bound were made in
scopes that are there. -/
structure Closed (store : Store) : Prop where
  ordered : store.Ordered
  captured : store.Holds (Value.Below store.next)

end Store

/-- A change refers to scopes of the store only. -/
def Change.Fits (store : Store) : Change → Prop
  | opened outer => ∀ scope ∈ outer, scope < store.next
  | bound scope _ value => scope < store.next ∧ value.Below store.next

/-- Each of the changes refers to scopes that are there by then. -/
def Store.Admits (store : Store) : List Change → Prop
  | [] => True
  | change :: rest => change.Fits store ∧ (store.apply change).Admits rest

/-! ## Values below a number -/

namespace Value

variable {limit : ScopeId} {value : Value}

theorem Scalar.below (h : value.Scalar) : value.Below limit := by
  intro scope hscope
  cases h <;> cases hscope

theorem below_builtin (function : Builtin) : (builtin function).Below limit := nofun

theorem Below.mono {limit' : ScopeId} (h : value.Below limit) (hlimit : limit ≤ limit') :
    value.Below limit' :=
  fun scope hscope => Nat.lt_of_lt_of_le (h scope hscope) hlimit

theorem Below.returned (h : value.Below limit) : (Value.returned value).Below limit := by
  intro scope hscope
  cases hscope with
  | returned hvalue => exact h scope hvalue

theorem Below.received (h : value.Below limit) : value.received.Below limit := by
  cases value with
  | returned value => exact fun scope hscope => h scope (.returned hscope)
  | _ => exact h

theorem below_closure {identity : Nat} {parameters : List Node} {body : Node} {scope : ScopeId} :
    (closure identity parameters body scope).Below limit ↔ scope < limit := by
  constructor
  · exact fun h => h scope .closure
  · intro h other hother
    cases hother
    exact h

theorem below_array {elements : List Value} :
    (array elements).Below limit ↔ ∀ element ∈ elements, element.Below limit := by
  constructor
  · exact fun h element helement scope hscope => h scope (.element helement hscope)
  · intro h scope hscope
    cases hscope with
    | element helement hcaptured => exact h _ helement scope hcaptured

theorem below_hash {entries : List (HashKey × Value)} :
    (hash entries).Below limit ↔ ∀ entry ∈ entries, entry.2.Below limit := by
  constructor
  · exact fun h entry hentry scope hscope => h scope (.entry hentry hscope)
  · intro h scope hscope
    cases hscope with
    | entry hentry hcaptured => exact h _ hentry scope hcaptured

theorem Below.lookUp {target : Value} (h : target.Below limit) (key : Value) :
    (target.lookUp key).Below limit := by
  apply lookUp_of_contents Scalar.null.below fun cause => (Scalar.error cause).below
  intro value hvalue
  cases target with
  | array elements => exact below_array.1 h value hvalue
  | hash entries => exact List.forall_mem_map.2 (below_hash.1 h) value hvalue
  | _ => cases hvalue

end Value

/-! ## Closed stores -/

namespace Store

variable {store : Store}

theorem replay_cons (change : Change) (rest : List Change) :
    store.replay (change :: rest) = (store.apply change).replay rest := rfl

theorem next_le_apply (store : Store) (change : Change) :
    store.next ≤ (store.apply change).next := by
  cases change with
  | opened outer => exact Nat.le_trans (Nat.le_succ _) (Nat.le_of_eq (next_addScope outer).symm)
  | bound scope name value => exact Nat.le_of_eq (next_bind scope name value).symm

theorem next_le_replay (changes : List Change) : store.next ≤ (store.replay changes).next := by
  induction changes generalizing store with
  | nil => exact Nat.le_refl _
  | cons change rest ih => exact Nat.le_trans (store.next_le_apply change) ih

theorem Closed.empty : Store.empty.Closed where
  ordered id outer houter := by
    rw [outer?_of_next_le (Nat.zero_le id)] at houter
    cases houter
  captured := holds_empty _

theorem Closed.apply (h : store.Closed) {change : Change} (hfits : change.Fits store) :
    (store.apply change).Closed := by
  have hcaptured : store.Holds (Value.Below (store.apply change).next) :=
    h.captured.mono fun value hvalue => hvalue.mono (store.next_le_apply change)
  cases change with
  | opened outer => exact ⟨h.ordered.addScope hfits, hcaptured.addScope outer⟩
  | bound scope name value =>
      refine ⟨fun id outer houter => ?_, hcaptured.bind scope name ?_⟩
      · rw [Store.apply, outer?_bind] at houter
        exact h.ordered id outer houter
      · exact hfits.2.mono (store.next_le_apply (.bound scope name value))

theorem Closed.replay (h : store.Closed) {changes : List Change} (hadmits : store.Admits changes) :
    (store.replay changes).Closed := by
  induction changes generalizing store with
  | nil => exact h
  | cons change rest ih => exact ih (h.apply hadmits.1) hadmits.2

theorem Closed.outer_lt_next (h : store.Closed) {scope outer : ScopeId}
    (houter : store.outer? scope = some outer) : outer < store.next := by
  apply Nat.lt_trans (h.ordered scope outer houter)
  apply Nat.lt_of_not_le
  intro hscope
  rw [outer?_of_next_le hscope] at houter
  cases houter

theorem Closed.below_valueOf (h : store.Closed) (scope : ScopeId) (name : String) :
    (store.valueOf scope name).Below store.next := by
  rw [valueOf]
  split
  case h_1 value hfound => exact h.captured.of_find? hfound
  case h_2 =>
    split
    · exact Value.below_builtin _
    · exact (Value.Scalar.error _).below

end Store

/-! ## Names bound one after the other -/

/-- The changes that bind names to values in a scope, one after the other. -/
def Change.binds (scope : ScopeId) (entries : List (String × Value)) : List Change :=
  entries.map fun entry => bound scope entry.1 entry.2

namespace Store

variable {store : Store}

theorem replay_binds (scope : ScopeId) (entries : List (String × Value)) :
    store.replay (Change.binds scope entries) = store.bindAll scope entries :=
  List.foldl_map

theorem admits_binds {scope : ScopeId} (hscope : scope < store.next)
    {entries : List (String × Value)} (h : ∀ entry ∈ entries, entry.2.Below store.next) :
    store.Admits (Change.binds scope entries) := by
  induction entries generalizing store with
  | nil => trivial
  | cons entry rest ih =>
      obtain ⟨hentry, hrest⟩ := List.forall_mem_cons.1 h
      have hnext : (store.apply (.bound scope entry.1 entry.2)).next = store.next := next_bind ..
      refine ⟨⟨hscope, hentry⟩, ih (Nat.lt_of_lt_of_eq hscope hnext.symm) fun other hother => ?_⟩
      rw [hnext]
      exact hrest other hother

end Store

/-! ## What a step changes -/

/-- The changes that the step after a moment makes: a value that arrives at a `let` is bound, and a
call opens a scope inside the one where the function was made and binds the arguments there. -/
def Moment.changes : Moment → List Change
  | ⟨.answer value, .bind scope name :: _, _, _⟩ =>
    if value.isError then []
    else
      match name.boundName with
      | .ok name => [.bound scope name value]
      | .error _ => []
  | ⟨.call (.closure _ parameters _ scope) arguments, _, _, machine⟩ =>
    if arguments.length ≠ parameters.length then []
    else
      match Node.parameterNames parameters with
      | .ok names =>
        .opened (some scope) :: Change.binds machine.store.next (names.zip arguments)
      | .error _ => []
  | _ => []

namespace Moment

variable {host : Host} {frames : List Frame} {depth : Nat} {machine : Machine}

theorem store_start (scope : ScopeId) (node : Node) :
    (start frames depth machine scope node).machine.store = machine.store := by
  cases node with
  | program => exact congrArg Machine.store (machine_sequence ..)
  | block => exact congrArg Machine.store (machine_sequence ..)
  | array => exact congrArg Machine.store (machine_collect ..)
  | hash => exact congrArg Machine.store (machine_gather ..)
  | _ => rfl

theorem store_enter (arguments : List Value) (function : Value) :
    (enter host frames depth machine arguments function).machine.store =
      machine.store.replay (changes ⟨.call function arguments, frames, depth, machine⟩) := by
  cases function with
  | closure identity parameters body scope =>
      rw [enter, changes]
      split
      · rfl
      · rw [enter_eq]
        cases Node.parameterNames parameters with
        | error fault => rfl
        | ok names =>
            have htrace : (machine.trace host.traceLevel (.called names arguments.length)).store =
                machine.store := store_trace host.traceLevel _
            rw [machine_runBody, htrace, Store.replay_cons, Store.replay_binds]
            rfl
  | builtin builtin => exact store_trace host.traceLevel (.calledBuiltin builtin arguments.length)
  | _ => rfl

theorem store_resume {value : Value} {frame : Frame}
    (hpasses : frame.wantsValue = true → value.isError = false) :
    (resume host frames depth machine value frame).machine.store =
      machine.store.replay (changes ⟨.answer value, frame :: frames, depth, machine⟩) := by
  cases frame with
  | bind scope name =>
      rw [resume, after, bindNode_eq, changes, hpasses rfl]
      cases name.boundName with
      | error fault => rfl
      | ok name => exact congrArg (Store.bind · scope name value) (store_trace host.traceLevel _)
  | next scope rest =>
      rw [resume]
      split
      · rfl
      · exact congrArg Machine.store (machine_sequence ..)
  | condition scope consequence alternative =>
      rw [resume]
      split
      · exact store_trace host.traceLevel (.decided value)
      · rw [machine_otherwise]
        exact store_trace host.traceLevel (.decided value)
  | callee => exact congrArg Machine.store (machine_collect ..)
  | item => exact congrArg Machine.store (machine_collect ..)
  | key scope entries node rest =>
      rw [resume]
      split <;> rfl
  | entry => exact congrArg Machine.store (machine_gather ..)
  | _ => rfl

/-- The store after a step is the store before it with the changes of the step. -/
theorem store_step {moment next : Moment} (hstep : moment.step host = some next) :
    next.machine.store = moment.machine.store.replay moment.changes := by
  cases turns_of_step hstep with
  | start scope node => exact store_start scope node
  | @enter function arguments frames depth machine next _ =>
      obtain rfl := Option.some.inj hstep
      exact store_enter arguments function
  | @past value frame _ _ _ hwants herror =>
      cases frame with
      | bind scope name => rw [changes, if_pos herror]; rfl
      | _ => rfl
  | resume value frame frames depth machine hpasses => exact store_resume hpasses
  | unwind => rfl

end Moment

/-! ## Moments on closed stores -/

/-- The scope that a frame goes on in. -/
def Frame.scope? : Frame → Option ScopeId
  | next scope _ | bind scope _ | left scope .. | condition scope .. | callee scope _
  | item scope .. | key scope .. | entry scope .. | target scope _ => some scope
  | _ => none

/-- A frame goes on in a scope with a smaller number, and so have the scopes in its values. -/
structure Frame.Below (limit : ScopeId) (frame : Frame) : Prop where
  scope : ∀ scope ∈ frame.scope?, scope < limit
  values : ∀ value ∈ frame.values, value.Below limit

/-- What is worked on refers to scopes with smaller numbers only. -/
def Control.Below (limit : ScopeId) : Control → Prop
  | evaluate scope _ => scope < limit
  | call function arguments =>
    function.Below limit ∧ ∀ argument ∈ arguments, argument.Below limit
  | answer value => value.Below limit
  | fault _ => True

namespace Moment

/-- What is worked on and what waits for it refer to scopes with smaller numbers only. -/
structure Below (limit : ScopeId) (moment : Moment) : Prop where
  control : moment.control.Below limit
  frames : ∀ frame ∈ moment.frames, frame.Below limit

/-- The store is closed, and all that there is at the moment refers to its scopes only. -/
structure Rooted (moment : Moment) : Prop where
  closed : moment.machine.store.Closed
  below : moment.Below moment.machine.store.next

variable {host : Host} {frames : List Frame} {depth : Nat} {machine : Machine} {limit : ScopeId}

section

variable (hframes : ∀ frame ∈ frames, frame.Below limit)

include hframes

theorem below_answer {value : Value} (hvalue : value.Below limit) :
    Below limit ⟨.answer value, frames, depth, machine⟩ :=
  ⟨hvalue, hframes⟩

theorem below_evaluate {scope : ScopeId} (hscope : scope < limit) (node : Node) :
    Below limit ⟨.evaluate scope node, frames, depth, machine⟩ :=
  ⟨hscope, hframes⟩

theorem below_evaluate_cons {scope : ScopeId} (hscope : scope < limit) (node : Node)
    {frame : Frame} (hframe : ∀ other ∈ frame.scope?, other = scope)
    (hvalues : ∀ value ∈ frame.values, value.Below limit) :
    Below limit ⟨.evaluate scope node, frame :: frames, depth, machine⟩ := by
  refine ⟨hscope, List.forall_mem_cons.2 ⟨⟨fun other hother => ?_, hvalues⟩, hframes⟩⟩
  rw [hframe other hother]
  exact hscope

theorem below_sequence {scope : ScopeId} (hscope : scope < limit) {last : Value}
    (hlast : last.Below limit) (statements : List Node) :
    Below limit (sequence frames depth machine scope last statements) := by
  cases statements with
  | nil => exact below_answer hframes hlast
  | cons statement rest =>
      exact below_evaluate_cons hframes hscope statement (by simp [Frame.scope?])
        (by simp [Frame.values])

theorem below_collect {scope : ScopeId} (hscope : scope < limit) {collector : Collector}
    {before : List Value} (hvalues : ∀ value ∈ collector.values ++ before, value.Below limit)
    (nodes : List Node) :
    Below limit (collect frames depth machine scope collector before nodes) := by
  cases nodes with
  | nil =>
      cases collector with
      | arguments function => exact ⟨List.forall_mem_cons.1 hvalues, hframes⟩
      | elements => exact below_answer hframes (Value.below_array.2 hvalues)
  | cons node rest =>
      exact below_evaluate_cons hframes hscope node (by simp [Frame.scope?]) hvalues

theorem below_gather {scope : ScopeId} (hscope : scope < limit)
    {entries : List (HashKey × Value)} (hentries : ∀ entry ∈ entries, entry.2.Below limit)
    (pairs : List (Node × Node)) :
    Below limit (gather frames depth machine scope entries pairs) := by
  cases pairs with
  | nil => exact below_answer hframes (Value.below_hash.2 hentries)
  | cons pair rest =>
      exact below_evaluate_cons hframes hscope pair.1 (by simp [Frame.scope?])
        (List.forall_mem_map.2 hentries)

theorem below_otherwise {scope : ScopeId} (hscope : scope < limit) (alternative : Node) :
    Below limit (otherwise frames depth machine scope alternative) := by
  cases alternative with
  | missing => exact below_answer hframes Value.Scalar.null.below
  | _ =>
      exact below_evaluate_cons hframes hscope _ (by simp [Frame.scope?]) (by simp [Frame.values])

theorem below_start {scope : ScopeId} (hscope : scope < limit)
    (hvalue : ∀ name, (machine.store.valueOf scope name).Below limit) (node : Node) :
    Below limit (start frames depth machine scope node) := by
  cases node with
  | program token statements =>
      have hreceive : Frame.receive.Below limit := ⟨nofun, nofun⟩
      exact below_sequence (List.forall_mem_cons.2 ⟨hreceive, hframes⟩) hscope
        Value.Scalar.null.below statements
  | expressionStatement token value => exact below_evaluate hframes hscope value
  | block token statements => exact below_sequence hframes hscope Value.Scalar.null.below statements
  | identifier token name => exact below_answer hframes (hvalue name)
  | integer token value => exact below_answer hframes (Value.Scalar.integer value).below
  | string token text => exact below_answer hframes (Value.Scalar.string text).below
  | boolean token value => exact below_answer hframes (Value.Scalar.boolean value).below
  | function token parameters body => exact below_answer hframes (Value.below_closure.2 hscope)
  | array token elements =>
      have hnone : ∀ value ∈ Collector.elements.values ++ [], value.Below limit :=
        List.forall_mem_nil _
      exact below_collect hframes hscope hnone elements
  | hash token pairs => exact below_gather hframes hscope (List.forall_mem_nil _) pairs
  | missing => exact ⟨trivial, hframes⟩
  | foreign => exact ⟨trivial, hframes⟩
  | _ =>
      exact below_evaluate_cons hframes hscope _ (by simp [Frame.scope?]) (by simp [Frame.values])

theorem below_resume {value : Value} (hvalue : value.Below limit) {frame : Frame}
    (hframe : frame.Below limit) :
    Below limit (resume host frames depth machine value frame) := by
  obtain ⟨hscope, hvalues⟩ := hframe
  cases frame with
  | receive => exact below_answer hframes hvalue.received
  | next scope rest =>
      rw [resume]
      split
      · exact below_answer hframes hvalue
      · exact below_sequence hframes (hscope scope rfl) hvalue rest
  | bind scope name =>
      rw [resume, after, bindNode_eq]
      cases name.boundName with
      | error fault => exact ⟨trivial, hframes⟩
      | ok name => exact below_answer hframes hvalue
  | send => exact below_answer hframes hvalue.returned
  | operand operator => exact below_answer hframes (Value.scalar_prefixed operator value).below
  | left scope operator right =>
      exact below_evaluate_cons hframes (hscope scope rfl) right (by simp [Frame.scope?])
        (List.forall_mem_singleton.2 hvalue)
  | right operator left =>
      exact below_answer hframes (Value.scalar_binary operator left value _).below
  | condition scope consequence alternative =>
      rw [resume]
      split
      · exact below_evaluate_cons hframes (hscope scope rfl) consequence (by simp [Frame.scope?])
          (by simp [Frame.values])
      · exact below_otherwise hframes (hscope scope rfl) alternative
  | branch => exact below_answer hframes hvalue
  | callee scope arguments =>
      have hfunction : ∀ kept ∈ (Collector.arguments value).values ++ [], kept.Below limit :=
        List.forall_mem_singleton.2 hvalue
      exact below_collect hframes (hscope scope rfl) hfunction arguments
  | item scope collector before rest =>
      refine below_collect hframes (hscope scope rfl) ?_ rest
      rw [← List.append_assoc]
      exact List.forall_mem_append.2 ⟨hvalues, List.forall_mem_singleton.2 hvalue⟩
  | key scope entries node rest =>
      rw [resume]
      split
      · exact below_answer hframes (Value.Scalar.error _).below
      · exact below_evaluate_cons hframes (hscope scope rfl) node (by simp [Frame.scope?]) hvalues
  | entry scope entries key rest =>
      exact below_gather hframes (hscope scope rfl)
        (Table.of_mem_insert (List.forall_mem_map.1 hvalues) hvalue) rest
  | target scope key =>
      exact below_evaluate_cons hframes (hscope scope rfl) key (by simp [Frame.scope?])
        (List.forall_mem_singleton.2 hvalue)
  | index target =>
      exact below_answer hframes (Value.Below.lookUp (hvalues target List.mem_cons_self) value)
  | body => exact below_answer hframes hvalue.received

end

/-- All changes of a step fit. -/
theorem Rooted.admits {moment : Moment} (h : moment.Rooted) :
    moment.machine.store.Admits moment.changes := by
  obtain ⟨hcontrol, hframes⟩ := h.below
  unfold changes
  split
  case h_1 value scope name frames depth machine =>
    split
    · trivial
    · split
      · exact ⟨⟨(hframes _ List.mem_cons_self).scope scope rfl, hcontrol⟩, trivial⟩
      · trivial
  case h_2 identity parameters body scope arguments frames depth machine =>
    split
    · trivial
    · split
      case h_1 names _ =>
        obtain ⟨hfunction, harguments⟩ := hcontrol
        have hmore := machine.store.next_le_apply (.opened (some scope))
        have hnew : machine.store.next < (machine.store.apply (.opened (some scope))).next :=
          Nat.lt_of_lt_of_eq (Nat.lt_succ_self _) (Store.next_addScope (some scope)).symm
        refine ⟨fun outer houter => ?_, Store.admits_binds hnew fun entry hentry => ?_⟩
        · obtain rfl := Option.some.inj houter
          exact Value.below_closure.1 hfunction
        · exact (harguments entry.2 (List.of_mem_zip hentry).2).mono hmore
      case h_2 => trivial
  case h_3 => trivial

theorem Below.mono {limit' : ScopeId} {moment : Moment} (h : moment.Below limit)
    (hlimit : limit ≤ limit') : moment.Below limit' where
  control := by
    obtain ⟨control, frames, depth, machine⟩ := moment
    have hcontrol := h.control
    cases control with
    | evaluate scope node => exact Nat.lt_of_lt_of_le hcontrol hlimit
    | call function arguments =>
        exact ⟨hcontrol.1.mono hlimit, fun argument hargument =>
          (hcontrol.2 argument hargument).mono hlimit⟩
    | answer value => exact Value.Below.mono hcontrol hlimit
    | fault fault => trivial
  frames frame hframe :=
    ⟨fun scope hscope => Nat.lt_of_lt_of_le ((h.frames frame hframe).scope scope hscope) hlimit,
      fun value hvalue => ((h.frames frame hframe).values value hvalue).mono hlimit⟩

/-- A step leads from closed stores to closed stores. -/
theorem Rooted.step {moment next : Moment} (h : moment.Rooted)
    (hstep : moment.step host = some next) : next.Rooted := by
  have hstore := store_step hstep
  have hmore : moment.machine.store.next ≤ next.machine.store.next :=
    hstore ▸ Store.next_le_replay moment.changes
  refine ⟨hstore ▸ h.closed.replay h.admits, ?_⟩
  obtain ⟨hcontrol, hframes⟩ := h.below
  have hframes' := (h.below.mono hmore).frames
  cases turns_of_step hstep with
  | start scope node frames depth machine =>
      exact (below_start hframes hcontrol (h.closed.below_valueOf scope) node).mono hmore
  | enter henters =>
      cases henters with
      | refused function depth cause => exact below_answer hframes' (Value.Scalar.error cause).below
      | builtin builtin depth =>
          exact below_answer hframes' (Value.scalar_runBuiltin builtin _ _).below
      | unnamed => exact ⟨trivial, hframes'⟩
      | exhausted => exact ⟨trivial, hframes'⟩
      | body henter =>
          obtain ⟨rfl, entries, hfinal⟩ := store_of_enter henter
          refine ⟨?_, List.forall_mem_cons.2 ⟨⟨nofun, nofun⟩, hframes'⟩⟩
          change _ < Store.next _
          rw [hfinal, Store.next_bindAll, Store.next_addScope]
          exact Nat.lt_succ_self _
  | past => exact below_answer (List.forall_mem_cons.1 hframes').2 (hcontrol.mono hmore)
  | resume value frame frames depth machine =>
      obtain ⟨hframe, hbelow⟩ := List.forall_mem_cons.1 hframes
      exact (below_resume hbelow hcontrol hframe).mono hmore
  | unwind => exact ⟨trivial, (List.forall_mem_cons.1 hframes').2⟩

end Moment

end MonkeyLanguage
