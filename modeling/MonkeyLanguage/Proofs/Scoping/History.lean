-- SUMMARY: Look-ups find what was bound last, in the nearest scope where anything was bound.
import MonkeyLanguage.Proofs.Run.Depth
import MonkeyLanguage.Proofs.Scoping.Changes

/-!
# Look-ups and the history of a session

A session opens scopes, binds names in them, runs programs and calls functions. Its history tells
all changes that were made to the scopes on the way, those made inside of programs and functions
included. The links of the scopes and the history together say what a name stands for: the value
that was bound to it last, in the nearest scope on the way outward where it was ever bound.

The way outward is cut off in the definition of a look-up after as many scopes as the number of the
scope says. On the stores of sessions it has come to its end by then.
-/

namespace MonkeyLanguage

/-! ## Ways outward -/

namespace Store

/-- Following the links from a scope leads through these scopes, and then there is no further
link. -/
inductive Leads (store : Store) : ScopeId → List ScopeId → Prop where
  | last {scope : ScopeId} : store.outer? scope = none → Leads store scope [scope]
  | outward {scope outer : ScopeId} {rest : List ScopeId} :
      store.outer? scope = some outer → Leads store outer rest → Leads store scope (scope :: rest)

variable {store : Store}

theorem Ordered.wellFounded (h : store.Ordered) :
    WellFounded fun outer scope => store.outer? scope = some outer :=
  Subrelation.wf (fun houter => h _ _ houter) Nat.lt_wfRel.wf

theorem Ordered.chain_of_outer? (h : store.Ordered) {scope outer : ScopeId}
    (houter : store.outer? scope = some outer) :
    store.chain scope = scope :: store.chain outer := by
  rw [chain, chainUpTo, houter]
  exact congrArg (scope :: ·) (h.chainUpTo_congr (h scope outer houter) (Nat.lt_succ_self outer))

theorem chain_of_outer?_eq_none {scope : ScopeId} (houter : store.outer? scope = none) :
    store.chain scope = [scope] := by
  rw [chain, chainUpTo, houter]

/-- The way outward from any scope comes to an end. -/
theorem Ordered.leads (h : store.Ordered) (scope : ScopeId) :
    store.Leads scope (store.chain scope) := by
  induction scope using h.wellFounded.induction with
  | _ scope ih =>
      cases houter : store.outer? scope with
      | none =>
          rw [chain_of_outer?_eq_none houter]
          exact .last houter
      | some outer =>
          rw [h.chain_of_outer? houter]
          exact .outward houter (ih outer houter)

/-- A look-up asks the scope itself, and if that does not bind the name, the scope around it. -/
theorem Ordered.find?_eq (h : store.Ordered) (scope : ScopeId) (name : String) :
    store.find? scope name =
      (Table.find? name (store.bindings scope)).or
        ((store.outer? scope).bind fun outer => store.find? outer name) := by
  cases houter : store.outer? scope with
  | none =>
      rw [find?, chain_of_outer?_eq_none houter, List.findSome?_singleton, Option.bind_none,
        Option.or_none]
  | some outer =>
      rw [find?, h.chain_of_outer? houter, List.findSome?_cons, Option.bind_some, find?]
      cases Table.find? name (store.bindings scope) <;> rfl

end Store

/-! ## Histories -/

/-- The value that a change binds to a name in a scope. -/
def Change.value? (scope : ScopeId) (name : String) : Change → Option Value
  | opened _ => none
  | bound other otherName value => if other = scope ∧ otherName = name then some value else none

/-- The value that was bound last to a name in a scope. -/
def lastBound (history : List Change) (scope : ScopeId) (name : String) : Option Value :=
  history.reverse.findSome? (Change.value? scope name)

/-- The value that was bound last to the name, in the nearest scope on the way outward where the
name was ever bound. -/
def Store.Nearest (store : Store) (history : List Change) (scope : ScopeId) (name : String)
    (value : Value) : Prop :=
  ∃ nearer id farther, store.chain scope = nearer ++ id :: farther ∧
    (∀ other ∈ nearer, ∀ passed, Change.bound other name passed ∉ history) ∧
    ∃ earlier later, history = earlier ++ .bound id name value :: later ∧
      ∀ other, Change.bound id name other ∉ later

section

variable {history : List Change} {scope : ScopeId} {name : String} {value : Value}

theorem Change.value?_eq_some {change : Change} :
    change.value? scope name = some value ↔ change = .bound scope name value := by
  cases change with
  | opened outer => simp [value?]
  | bound other otherName kept => simp [value?, and_assoc]

theorem Change.value?_eq_none {change : Change} :
    change.value? scope name = none ↔ ∀ value, change ≠ .bound scope name value := by
  simp only [ne_eq, ← value?_eq_some, Option.eq_none_iff_forall_ne_some]

theorem lastBound_concat (change : Change) :
    lastBound (history ++ [change]) scope name =
      (change.value? scope name).or (lastBound history scope name) := by
  rw [lastBound, List.reverse_append, List.reverse_singleton, List.singleton_append,
    List.findSome?_cons, lastBound]
  cases change.value? scope name <;> rfl

theorem lastBound_eq_none_iff :
    lastBound history scope name = none ↔ ∀ value, Change.bound scope name value ∉ history := by
  simp only [lastBound, List.findSome?_eq_none_iff, List.mem_reverse, Change.value?_eq_none]
  constructor
  · exact fun h value hmem => h _ hmem value rfl
  · rintro h change hchange value rfl
    exact h value hchange

theorem lastBound_eq_some_iff :
    lastBound history scope name = some value ↔
      ∃ earlier later, history = earlier ++ .bound scope name value :: later ∧
        ∀ other, Change.bound scope name other ∉ later := by
  rw [lastBound, List.findSome?_eq_some_iff]
  constructor
  · rintro ⟨later, change, earlier, hhistory, hchange, hlater⟩
    obtain rfl := Change.value?_eq_some.1 hchange
    refine ⟨earlier.reverse, later.reverse, ?_, fun other hother => ?_⟩
    · simpa using List.reverse_eq_iff.1 hhistory
    · exact Change.value?_eq_none.1 (hlater _ (List.mem_reverse.1 hother)) other rfl
  · rintro ⟨earlier, later, rfl, hlater⟩
    refine ⟨later.reverse, _, earlier.reverse, by simp, Change.value?_eq_some.2 rfl, ?_⟩
    intro change hchange
    refine Change.value?_eq_none.2 fun other hother => hlater other ?_
    exact hother ▸ List.mem_reverse.1 hchange

end

/-! ## Stores that hold what was bound last -/

namespace Store

variable {store : Store} {history : List Change}

/-- Each scope binds to each name the value that was bound last to it there. -/
def Remembers (store : Store) (history : List Change) : Prop :=
  ∀ scope name, Table.find? name (store.bindings scope) = lastBound history scope name

theorem Remembers.empty : Store.empty.Remembers [] := by
  intro scope name
  rw [bindings_of_next_le (Nat.zero_le scope)]
  rfl

theorem Remembers.apply (h : store.Remembers history) {change : Change}
    (hfits : change.Fits store) : (store.apply change).Remembers (history ++ [change]) := by
  intro scope name
  rw [lastBound_concat]
  cases change with
  | opened outer => rw [Store.apply, bindings_addScope, h, Change.value?, Option.none_or]
  | bound other otherName value =>
      rw [Store.apply, Change.value?]
      by_cases hscope : other = scope
      · subst hscope
        rw [bindings_bind_self hfits.1]
        by_cases hname : otherName = name
        · rw [if_pos ⟨rfl, hname⟩, hname, Table.find?_insert_self, Option.some_or]
        · rw [if_neg fun hsame => hname hsame.2, Option.none_or, ← h,
            Table.find?_insert_of_ne (Ne.symm hname)]
      · rw [if_neg fun hsame => hscope hsame.1, Option.none_or, ← h,
          bindings_bind_of_ne (Ne.symm hscope)]

theorem Remembers.replay (h : store.Remembers history) {changes : List Change}
    (hadmits : store.Admits changes) : (store.replay changes).Remembers (history ++ changes) := by
  induction changes generalizing store history with
  | nil => rwa [List.append_nil]
  | cons change rest ih =>
      rw [List.append_cons]
      exact ih (h.apply hadmits.1) hadmits.2

theorem Remembers.find?_eq_some_iff (h : store.Remembers history) {scope : ScopeId} {name : String}
    {value : Value} :
    store.find? scope name = some value ↔ store.Nearest history scope name value := by
  simp only [find?, h _ name, List.findSome?_eq_some_iff, lastBound_eq_some_iff,
    lastBound_eq_none_iff]
  constructor
  · rintro ⟨nearer, id, farther, hchain, hlast, hpassed⟩
    exact ⟨nearer, id, farther, hchain, hpassed, hlast⟩
  · rintro ⟨nearer, id, farther, hchain, hpassed, hlast⟩
    exact ⟨nearer, id, farther, hchain, hlast, hpassed⟩

theorem Remembers.find?_eq_none_iff (h : store.Remembers history) {scope : ScopeId}
    {name : String} :
    store.find? scope name = none ↔
      ∀ id ∈ store.chain scope, ∀ value, Change.bound id name value ∉ history := by
  simp only [find?, h _ name, List.findSome?_eq_none_iff, lastBound_eq_none_iff]

end Store

/-! ## Steps of a session -/

namespace Moment

variable {host : Host}

/-- The moment so many steps later, or the last one if there are fewer. -/
def later (host : Host) : (steps : Nat) → Moment → Moment
  | 0, moment => moment
  | steps + 1, moment =>
    match moment.step host with
    | some next => later host steps next
    | none => moment

/-- The changes that so many steps make, one after the other. -/
def changesOf (host : Host) : (steps : Nat) → Moment → List Change
  | 0, _ => []
  | steps + 1, moment =>
    match moment.step host with
    | some next => moment.changes ++ changesOf host steps next
    | none => []

theorem exists_later_eq {moment last : Moment} (h : Reaches host moment last) :
    ∃ steps, moment.later host steps = last := by
  induction h using Relation.ReflTransGen.head_induction_on with
  | refl => exact ⟨0, rfl⟩
  | head hstep _ ih =>
      obtain ⟨steps, hlast⟩ := ih
      exact ⟨steps + 1, by rw [later, hstep]; exact hlast⟩

theorem Rooted.later {moment : Moment} (h : moment.Rooted) (steps : Nat) :
    (moment.later host steps).Rooted := by
  induction steps generalizing moment with
  | zero => exact h
  | succ steps ih =>
      rw [Moment.later]
      cases hstep : moment.step host with
      | none => exact h
      | some next => exact ih (h.step hstep)

/-- What is bound on the way is remembered. -/
theorem Rooted.remembers {moment : Moment} (h : moment.Rooted) {history : List Change}
    (hremembers : moment.machine.store.Remembers history) (steps : Nat) :
    (moment.later host steps).machine.store.Remembers
      (history ++ moment.changesOf host steps) := by
  induction steps generalizing moment history with
  | zero =>
      rw [changesOf, List.append_nil]
      exact hremembers
  | succ steps ih =>
      rw [Moment.later, changesOf]
      cases hstep : moment.step host with
      | none =>
          rw [List.append_nil]
          exact hremembers
      | some next =>
          have hnext : next.machine.store.Remembers (history ++ moment.changes) :=
            store_step hstep ▸ hremembers.replay h.admits
          simpa only [List.append_assoc] using ih (h.step hstep) hnext

end Moment

/-! ## Sessions -/

/-- A session comes to the store by the changes of this history: it opens scopes, on their own or
inside others, it binds values in them, and it runs programs and calls functions, all or part of
the way. Values that it hands in refer to scopes that are there. -/
inductive Store.Session : Store → List Change → Prop where
  | empty : Session .empty []
  | opened {store : Store} {history : List Change} {outer : Option ScopeId} :
      Session store history → (∀ scope ∈ outer, scope < store.next) →
      Session (store.addScope outer) (history ++ [.opened outer])
  | bound {store : Store} {history : List Change} {scope : ScopeId} (name : String)
      {value : Value} :
      Session store history → scope < store.next → value.Below store.next →
      Session (store.bind scope name value) (history ++ [.bound scope name value])
  | worked {machine : Machine} {history : List Change} {control : Control} (depth : Nat)
      (host : Host) (steps : Nat) :
      Session machine.store history → control.Below machine.store.next →
      Session (Moment.later host steps ⟨control, [], depth, machine⟩).machine.store
        (history ++ Moment.changesOf host steps ⟨control, [], depth, machine⟩)

/-- All ways outward come to an end, all links and functions refer to scopes that are there, and the
links and the history tell what a look-up finds. -/
structure Store.Coherent (store : Store) (history : List Change) : Prop where
  wellFounded : WellFounded fun outer scope => store.outer? scope = some outer
  /-- The scopes that a look-up goes through are all there are on the way outward. -/
  leads : ∀ scope, store.Leads scope (store.chain scope)
  outward : ∀ scope name, store.find? scope name =
    (Table.find? name (store.bindings scope)).or
      ((store.outer? scope).bind fun outer => store.find? outer name)
  there : ∀ scope outer, store.outer? scope = some outer → outer < store.next
  captured : ∀ id, ∀ entry ∈ store.bindings id, ∀ scope, entry.2.Captures scope →
    scope < store.next
  found : ∀ scope name value,
    store.find? scope name = some value ↔ store.Nearest history scope name value
  unfound : ∀ scope name, store.find? scope name = none ↔
    ∀ id ∈ store.chain scope, ∀ value, Change.bound id name value ∉ history

/-- Work that starts at this moment comes to an end with this store. That is the store of a session
then, with the changes that were made on the way at the end of its history. -/
def Store.LedOn (history : List Change) (host : Host) (start : Moment) (store : Store) : Prop :=
  ∃ steps, (start.later host steps).step host = none ∧
    (start.later host steps).machine.store = store ∧
    store.Session (history ++ start.changesOf host steps)

namespace Store

variable {store : Store} {history : List Change}

theorem Session.closed_remembers (h : store.Session history) :
    store.Closed ∧ store.Remembers history := by
  induction h with
  | empty => exact ⟨.empty, .empty⟩
  | @opened store history outer _ houter ih =>
      have hfits : (Change.opened outer).Fits store := houter
      exact ⟨ih.1.apply hfits, ih.2.apply hfits⟩
  | @bound store history scope name value _ hscope hvalue ih =>
      have hfits : (Change.bound scope name value).Fits store := ⟨hscope, hvalue⟩
      exact ⟨ih.1.apply hfits, ih.2.apply hfits⟩
  | @worked machine history control depth host steps _ hcontrol ih =>
      have hrooted : Moment.Rooted ⟨control, [], depth, machine⟩ :=
        ⟨ih.1, hcontrol, List.forall_mem_nil _⟩
      exact ⟨(hrooted.later steps).closed, hrooted.remembers ih.2 steps⟩

theorem Session.rooted {machine : Machine} (h : machine.store.Session history) {control : Control}
    (hcontrol : control.Below machine.store.next) (depth : Nat) :
    Moment.Rooted ⟨control, [], depth, machine⟩ :=
  ⟨h.closed_remembers.1, hcontrol, List.forall_mem_nil _⟩

/-- Work that is done to the end leads on to a session. -/
theorem Session.ledOn {machine : Machine} (h : machine.store.Session history) {control : Control}
    (hcontrol : control.Below machine.store.next) (depth : Nat) (host : Host) :
    LedOn history host ⟨control, [], depth, machine⟩
      ((control.meaning host depth).machineAfter machine).store := by
  obtain ⟨steps, hsteps⟩ :=
    Moment.exists_later_eq (Moment.arrives host ⟨control, [], depth, machine⟩)
  have hsession := Session.worked depth host steps h hcontrol
  rw [hsteps, Moment.machine_after] at hsession
  refine ⟨steps, ?_, ?_, hsession⟩
  · rw [hsteps]
    exact Moment.step_after_eq_none ..
  · rw [hsteps, Moment.machine_after]

theorem Session.ledOn_run {machine : Machine} (h : machine.store.Session history)
    (settings : Settings) {scope : ScopeId} (hscope : scope < machine.store.next)
    (program : Node) :
    LedOn history settings.toHost (settings.begin scope program machine)
      ((settings.run scope program).machineAfter machine).store := by
  obtain ⟨log, hrun⟩ := settings.exists_machineAfter_run scope machine program
  have hstore : (settings.begin scope program machine).machine.store = machine.store :=
    Moment.store_trace ..
  have hbegin : (settings.begin scope program machine).machine.store.Session history := by
    rwa [hstore]
  have hcontrol : (Control.evaluate scope program).Below
      (settings.begin scope program machine).machine.store.next := by
    rwa [hstore]
  rw [hrun]
  exact hbegin.ledOn hcontrol settings.depth settings.toHost

theorem Session.coherent (h : store.Session history) : store.Coherent history := by
  obtain ⟨hclosed, hremembers⟩ := h.closed_remembers
  exact {
    wellFounded := hclosed.ordered.wellFounded
    leads := hclosed.ordered.leads
    outward := hclosed.ordered.find?_eq
    there := fun _ _ => hclosed.outer_lt_next
    captured := fun id => hclosed.captured.of_bindings id
    found := fun _ _ _ => hremembers.find?_eq_some_iff
    unfound := fun _ _ => hremembers.find?_eq_none_iff }

/-- In every session all ways outward come to an end, and a look-up finds what was bound last to the
name in the nearest scope where it was ever bound. At every moment of a program that is run or of a
function that is called, the scopes to go on in and those of the functions at hand are there, and
the work leads on to a session with what was bound on the way in its history. -/
theorem Session.lookUps_nearest (h : store.Session history) :
    store.Coherent history ∧ ∀ machine : Machine, machine.store = store →
      (∀ control : Control, control.Below store.next → ∀ host depth steps,
        (Moment.later host steps ⟨control, [], depth, machine⟩).Rooted) ∧
      ∀ settings : Settings,
        (∀ scope < store.next, ∀ program,
          LedOn history settings.toHost (settings.begin scope program machine)
            ((settings.run scope program).machineAfter machine).store) ∧
        ∀ function arguments, function.Below store.next →
          (∀ argument ∈ arguments, argument.Below store.next) →
          LedOn history settings.toHost ⟨.call function arguments, [], settings.depth, machine⟩
            ((settings.call function arguments).machineAfter machine).store := by
  refine ⟨h.coherent, ?_⟩
  rintro machine rfl
  refine ⟨fun control hcontrol host depth steps => (h.rooted hcontrol depth).later steps,
    fun settings => ⟨fun scope hscope program => h.ledOn_run settings hscope program, ?_⟩⟩
  intro function arguments hfunction harguments
  have hcontrol : (Control.call function arguments).Below machine.store.next :=
    ⟨hfunction, harguments⟩
  exact h.ledOn hcontrol settings.depth settings.toHost

end Store

/-- `let x = 1; let hold = fn(x) { fn() { x } }; let held = hold(2)`. -/
def Node.bindHeld : Node :=
  .program default [.letStatement default (.identifier default "x") (.integer default 1),
    .letStatement default (.identifier default "hold")
      (.function default [.identifier default "x"] (.block default
        [.expressionStatement default (.function default [] (.block default
          [.expressionStatement default (.identifier default "x")]))])),
    .letStatement default (.identifier default "held")
      (.call default (.identifier default "hold") [.integer default 2])]

/-- When that has run in the first scope and `x` is bound there to `3` after it, `x` is `2` still in
the scope of the call that `held` captures, and it is `3` in the first scope. -/
theorem Store.Session.lookUps_nearest_held :
    let start := Settings.begin {} globalScope Node.bindHeld .initial
    let store := (start.later {} 30).machine.store.bind globalScope "x" (.integer 3)
    let history := [.opened none] ++ start.changesOf {} 30 ++ [.bound globalScope "x" (.integer 3)]
    store.Session history ∧ store.Coherent history ∧ store.next = 2 ∧
      store.chain 1 = [1, 0] ∧ history.length = 7 ∧
      (store.find? 1 "x").map Value.inspect = some "2" ∧
      (store.find? 0 "x").map Value.inspect = some "3" := by
  intro start store history
  have hopened : Machine.initial.store.Session [.opened none] := .opened .empty nofun
  have hran : (start.later {} 30).machine.store.Session
      ([.opened none] ++ start.changesOf {} 30) := by
    have hscope : globalScope < Machine.initial.store.next := Nat.lt_succ_self 0
    exact .worked 300 {} 30 hopened hscope
  have hsession : store.Session history :=
    .bound "x" hran (by decide +kernel) (Value.Scalar.integer 3).below
  exact ⟨hsession, hsession.lookUps_nearest.1, by decide +kernel, by decide +kernel,
    by decide +kernel, by decide +kernel, by decide +kernel⟩

end MonkeyLanguage
