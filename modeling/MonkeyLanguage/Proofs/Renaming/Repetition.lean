-- SUMMARY: A call that is made twice in a row does the same the second time.
import MonkeyLanguage.Proofs.Renaming.Evaluation
import MonkeyLanguage.Proofs.Scoping.Reach

/-!
# Repeated calls

A call leaves every scope as it was that was there before it. When the same call is made once more,
it finds the same scopes, and others besides that it cannot get to. The scopes and closures that it
makes have other numbers than those that the first call made, and nothing else is different.

That needs a machine on which links and values refer to scopes that are there. All machines are like
that to which an interpreter can get.
-/

namespace MonkeyLanguage

open Eval

/-! ## From one machine to a later one -/

namespace Renaming

/-- A number that is handed out after `start` of them, if it is handed out after `later` of them
instead. -/
def renumbered (start later number : Nat) : Nat :=
  if number < start then number else number + (later - start)

variable {start later number : Nat}

theorem renumbered_of_lt (h : number < start) : renumbered start later number = number :=
  if_pos h

theorem renumbered_add (h : start ≤ later) (made : Nat) :
    renumbered start later (start + made) = later + made := by
  rw [renumbered, if_neg (Nat.not_lt_of_le (Nat.le_add_right start made))]
  omega

theorem strictMono_renumbered (start later : Nat) : StrictMono (renumbered start later) := by
  intro number number' hless
  rw [renumbered, renumbered]
  split <;> split <;> omega

/-- What is made on one machine from now on gets the numbers that it gets on a later machine. -/
def between (start later : Machine) : Renaming where
  scope := renumbered start.store.next later.store.next
  closure := renumbered start.closures later.closures
  increasing := strictMono_renumbered _ _

theorem fixes_between (start later : Machine) : (between start later).Fixes start :=
  ⟨fun _ => renumbered_of_lt, fun _ => renumbered_of_lt⟩

end Renaming

namespace Machine

variable {start later : Machine}

/-- A later machine on which all scopes are as they were has the scopes of the earlier one, and for
what is made next it has other numbers. -/
theorem Consistent.renames_between (h : start.Consistent) (hmore : start.Precedes later)
    (hstore : start.store.Extends later.store) (hconsole : later.console = start.console) :
    start.Renames (.between start later) later := by
  have hfixes := Renaming.fixes_between start later
  have hnew : ∀ made, (Renaming.between start later).scope (start.store.next + made) =
      later.store.next + made := Renaming.renumbered_add hmore.scopes
  refine ⟨h, ⟨hnew, fun id => ?_, fun id => ?_⟩, Renaming.renumbered_add hmore.closures, hconsole⟩
  · rcases Nat.lt_or_ge id start.store.next with hid | hid
    · rw [hfixes.scopes id hid, hstore.outer id hid]
      cases houter : start.store.outer? id with
      | none => rfl
      | some outer =>
          have hless : outer < start.store.next := Nat.lt_trans (h.ordered id outer houter) hid
          rw [Option.map_some, hfixes.scopes outer hless]
    · obtain ⟨made, rfl⟩ := Nat.exists_eq_add_of_le hid
      rw [hnew, Store.outer?_of_next_le hid, Store.outer?_of_next_le (Nat.le_add_right ..)]
      rfl
  · rcases Nat.lt_or_ge id start.store.next with hid | hid
    · have hbound := h.bound.of_bindings id
      rw [hfixes.scopes id hid, hstore.bindings id hid,
        Table.mapValues_eq_self fun entry hentry => (hbound entry hentry).renamed_eq hfixes]
    · obtain ⟨made, rfl⟩ := Nat.exists_eq_add_of_le hid
      rw [hnew, Store.bindings_of_next_le hid, Store.bindings_of_next_le (Nat.le_add_right ..)]
      rfl

theorem Consistent.renames_self (h : start.Consistent) :
    start.Renames (.between start start) start :=
  h.renames_between (.refl start) (.refl start.store) rfl

end Machine

/-! ## Work that refers to what was there before -/

namespace Eval

/-- The work refers to no scopes and closures but those that the machine has: it does the same under
new numbers for what is made from there on. -/
def Grounded (start : Machine) (work : Eval Value) : Prop :=
  ∀ r : Renaming, r.Fixes start → Repeats r start work work

namespace Grounded

variable {start : Machine} {work : Eval Value}

theorem ending (h : Grounded start work) (hstart : start.Consistent) :
    ResultsRenamed (.between start start) (Renaming.between start start).Values start (work start)
      (work start) :=
  h _ (Renaming.fixes_between start start) start hstart.renames_self

theorem machineAfter (h : Grounded start work) (hstart : start.Consistent) :
    start.Precedes (work.machineAfter start) ∧ (work.machineAfter start).Consistent := by
  have hending := h.ending hstart
  cases hresult : work start with
  | ok value final =>
      rw [machineAfter_of_ok hresult]
      rw [hresult] at hending
      cases hending with
      | ok hmore hfinal _ => exact ⟨hmore, hfinal.consistent⟩
  | error fault final =>
      rw [machineAfter_of_error hresult]
      rw [hresult] at hending
      cases hending with
      | error _ hmore hfinal => exact ⟨hmore, hfinal.consistent⟩

theorem belongs (h : Grounded start work) (hstart : start.Consistent) {value : Value}
    {final : Machine} (hvalue : work start = .ok value final) : value.Belongs final := by
  have hending := h.ending hstart
  rw [hvalue] at hending
  cases hending with
  | ok _ _ hrelated => exact hrelated.1

end Grounded

end Eval

namespace Settings

variable (settings : Settings) {start : Machine}

theorem grounded_evaluate {scope : ScopeId} (hscope : scope < start.store.next) (node : Node) :
    Grounded start (settings.evaluate scope node) := by
  intro r hr
  have hnode : Repeats r start _ _ := settings.repeats_evaluate hscope node
  rwa [hr.scopes scope hscope] at hnode

theorem grounded_run {scope : ScopeId} (hscope : scope < start.store.next) (program : Node) :
    Grounded start (settings.run scope program) := by
  intro r hr
  have hprogram : Repeats r start _ _ := settings.repeats_run hscope program
  rwa [hr.scopes scope hscope] at hprogram

theorem grounded_call {function : Value} {arguments : List Value}
    (hfunction : function.Belongs start)
    (harguments : ∀ argument ∈ arguments, argument.Belongs start) :
    Grounded start (settings.call function arguments) := by
  intro r hr
  have hcall : Repeats r start _ _ := settings.repeats_call hfunction harguments
  have hsame : ∀ argument ∈ arguments, argument.renamed r = argument := fun argument hargument =>
    (harguments argument hargument).renamed_eq hr
  rwa [hfunction.renamed_eq hr, List.map_congr_left hsame, List.map_id'] at hcall

end Settings

/-! ## Machines that an interpreter gets to -/

/-- An interpreter can get to the machine. At first there is the global scope only. Then scopes are
opened, on their own or inside others, names are bound in them to values of the machine, programs
and nodes are evaluated and functions are called, whatever comes of it, and what has been written
is taken away. -/
inductive Machine.Attained : Machine → Prop where
  | initial : Attained .initial
  | opened {machine : Machine} {outer : Option ScopeId} :
      Attained machine → (∀ scope ∈ outer, scope < machine.store.next) →
      Attained ((Eval.openScope outer).machineAfter machine)
  | bound {machine : Machine} {scope : ScopeId} {name : String} {value : Value} :
      Attained machine → value.Belongs machine →
      Attained ((Eval.bindName scope name value).machineAfter machine)
  | evaluated {machine : Machine} (settings : Settings) {scope : ScopeId} (node : Node) :
      Attained machine → scope < machine.store.next →
      Attained ((settings.evaluate scope node).machineAfter machine)
  | ran {machine : Machine} (settings : Settings) {scope : ScopeId} (program : Node) :
      Attained machine → scope < machine.store.next →
      Attained ((settings.run scope program).machineAfter machine)
  | called {machine : Machine} (settings : Settings) {function : Value} {arguments : List Value} :
      Attained machine → function.Belongs machine →
      (∀ argument ∈ arguments, argument.Belongs machine) →
      Attained ((settings.call function arguments).machineAfter machine)
  | emptied {machine : Machine} :
      Attained machine → Attained { machine with console := .empty }

namespace Machine.Attained

variable {machine : Machine} (h : machine.Attained)

include h

/-- No interpreter gets to a machine that is not consistent. -/
theorem consistent : machine.Consistent := by
  induction h with
  | initial => exact .initial
  | opened _ houter ih => exact ih.addScope houter
  | bound _ hvalue ih => exact ih.bind _ _ hvalue
  | evaluated settings node _ hscope ih =>
      exact ((settings.grounded_evaluate hscope node).machineAfter ih).2
  | ran settings program _ hscope ih =>
      exact ((settings.grounded_run hscope program).machineAfter ih).2
  | called settings _ hfunction harguments ih =>
      exact ((settings.grounded_call hfunction harguments).machineAfter ih).2
  | emptied _ ih => exact ih.of_store_eq rfl rfl

/-- The value that a name stands for belongs to the machine. -/
theorem belongs_valueOf (scope : ScopeId) (name : String) :
    (machine.store.valueOf scope name).Belongs machine :=
  h.consistent.belongs_valueOf scope name

end Machine.Attained

/-! ## The same call twice -/

/-- A value and what the same call yields once more: it has the same type and the same printable
form, it is the same error if it is one, and without functions inside it is the same value, equal to
itself. -/
structure Value.Again (value value' : Value) : Prop where
  type : value'.type = value.type
  inspect : value'.inspect = value.inspect
  error : ∀ cause, value = .error cause → value' = .error cause
  equal : (∀ scope, ¬ value.Captures scope) → value' = value ∧ value'.equals value = true

/-- The same piece of work, done once more, ends in the same way, with the same fault or with such a
value again, and writes the same texts. -/
inductive Outcome.Again : Outcome Value → Outcome Value → Prop where
  | value {value value' : Value} {final final' : Machine} :
      value.Again value' → final'.console = final.console →
      Again ⟨.ok value, final⟩ ⟨.ok value', final'⟩
  | fault {fault : Fault} {final final' : Machine} :
      final'.console = final.console →
      Again ⟨.error fault, final⟩ ⟨.error fault, final'⟩

theorem Value.Belongs.renamed_of_not_captures {machine : Machine} {value : Value}
    (h : value.Belongs machine) (r : Renaming) (hnone : ∀ scope, ¬ value.Captures scope) :
    value.renamed r = value := by
  induction h with
  | returned _ ih => rw [renamed, ih fun scope hscope => hnone scope (.returned hscope)]
  | closure => exact absurd .closure (hnone _)
  | array _ ih =>
      have helements := fun element helement =>
        ih element helement fun scope hscope => hnone scope (.element helement hscope)
      rw [renamed_array, List.map_congr_left helements, List.map_id']
  | hash _ _ ih =>
      have hentries := fun entry hentry =>
        ih entry hentry fun scope hscope => hnone scope (.entry hentry hscope)
      rw [renamed_hash, Table.mapValues_eq_self hentries]
  | _ => rfl

theorem Value.Belongs.again {machine : Machine} {value : Value} (h : value.Belongs machine)
    (r : Renaming) : value.Again (value.renamed r) where
  type := type_renamed r value
  inspect := inspect_renamed r value
  error cause hcause := by rw [hcause, renamed]
  equal hnone := by
    have hsame := h.renamed_of_not_captures r hnone
    exact ⟨hsame, by rw [hsame, h.equals_self]⟩

theorem Eval.Repeats.again {r : Renaming} {work work' : Eval Value} {machine machine' : Machine}
    (h : Repeats r { machine with console := .empty } work work')
    (hmachine : Machine.Renames r { machine with console := .empty }
      { machine' with console := .empty }) :
    (work.perform machine).Again (work'.perform machine') := by
  have hresults := h _ hmachine
  rw [perform, perform]
  generalize work { machine with console := .empty } = result at hresults
  generalize work' { machine' with console := .empty } = result' at hresults
  cases hresults with
  | ok _ hfinal hvalue =>
      obtain ⟨hbelongs, rfl⟩ := hvalue
      exact .value (hbelongs.again r) hfinal.console
  | error fault _ hfinal => exact .fault hfinal.console

/-- Work that leaves all scopes as they were does the same when it is done once more. -/
theorem Eval.Grounded.again {work : Eval Value} {machine : Machine}
    (h : Grounded { machine with console := .empty } work)
    (hmachine : { machine with console := .empty }.Consistent)
    (hkept : Moves (fun before after => before.store.Extends after.store) work) :
    (work.perform machine).Again (work.perform (work.perform machine).machine) := by
  let start : Machine := { machine with console := .empty }
  let later : Machine := { (work.perform machine).machine with console := .empty }
  have hfirst : (work.perform machine).machine = work.machineAfter start := machine_perform ..
  have hmore : start.Precedes (work.perform machine).machine := hfirst ▸ (h.machineAfter hmachine).1
  have hstore : start.store.Extends (work.perform machine).machine.store := hfirst ▸ hkept start
  have hlater : start.Renames (.between start later) later :=
    hmachine.renames_between (hmore.trans (.of_eq rfl rfl)) hstore rfl
  exact (h _ (Renaming.fixes_between start later)).again hlater

/-- A function that is called twice in a row with the same arguments does the same the second time:
it ends in the same way, it writes the same texts, and its value has the same type and printable
form. Without functions inside, the two values are equal. -/
theorem Settings.call_again (settings : Settings) {machine : Machine} (h : machine.Attained)
    {function : Value} (hfunction : function.Belongs machine) {arguments : List Value}
    (harguments : ∀ argument ∈ arguments, argument.Belongs machine) :
    let first := (settings.call function arguments).perform machine
    first.Again ((settings.call function arguments).perform first.machine) := by
  have hsame : machine.Precedes { machine with console := .empty } := .of_eq rfl rfl
  have hgrounded : Grounded { machine with console := .empty } (settings.call function arguments) :=
    settings.grounded_call (hfunction.mono hsame) fun argument hargument =>
      (harguments argument hargument).mono hsame
  exact hgrounded.again h.emptied.consistent fun start =>
    (settings.scopes_kept start).2 function arguments

/-- `let maker = fn() { println("made"); fn() {} }`. -/
def Node.bindMaker : Node :=
  .program default [.letStatement default (.identifier default "maker")
    (.function default [] (.block default
      [.expressionStatement default
          (.call default (.identifier default "println") [.string default "made"]),
        .expressionStatement default (.function default [] (.block default []))]))]

/-- That function writes the same line each time, and each time it makes another function in another
scope. -/
theorem Settings.call_again_maker :
    let machine := (Settings.run {} globalScope Node.bindMaker).machineAfter .initial
    let maker := machine.store.valueOf globalScope "maker"
    let first := (Settings.call {} maker []).perform machine
    let second := (Settings.call {} maker []).perform first.machine
    machine.Attained ∧ maker.Belongs machine ∧ first.Again second ∧ second.written = "made\n" ∧
      (first.machine.store.next, second.machine.store.next) = (2, 3) ∧
      (first.machine.closures, second.machine.closures) = (2, 3) := by
  intro machine maker first second
  have hmachine : machine.Attained := .ran {} Node.bindMaker .initial (Nat.lt_succ_self 0)
  have hmaker : maker.Belongs machine := hmachine.belongs_valueOf globalScope "maker"
  have hagain : first.Again second := call_again {} hmachine hmaker (List.forall_mem_nil _)
  exact ⟨hmachine, hmaker, hagain, by decide +kernel, by decide +kernel, by decide +kernel⟩

end MonkeyLanguage
