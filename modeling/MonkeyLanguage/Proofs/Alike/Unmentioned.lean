-- SUMMARY: A name that occurs in no code that can run makes no difference, whatever it is bound to.
import MonkeyLanguage.Proofs.Alike.Rendering
import MonkeyLanguage.Proofs.Scoping.Reach

/-!
# Names that do not occur

A program sees the bindings of a scope through names only. So if a name occurs neither in the
program nor in the functions that can be got to from the scope it runs in, then it makes no
difference whether the name is bound, where, and to what. The code behind a period is no name here:
`a.b` looks up a string.

The two runs that are compared start on stores that differ in one binding. They go on in the same
way because no name counts but the others, and because code that does not mention a name makes only
functions that do not mention it.
-/

namespace MonkeyLanguage

/-! ## Names in code -/

namespace Node

mutual

/-- The names in a node, be they looked up, bound, or parameters. -/
def names : Node → List String
  | program _ statements => namesOfAll statements
  | letStatement _ name value => name.names ++ value.names
  | returnStatement _ value => value.names
  | expressionStatement _ value => value.names
  | block _ statements => namesOfAll statements
  | identifier _ name => [name]
  | integer _ _ => []
  | string _ _ => []
  | boolean _ _ => []
  | prefixed _ _ right => right.names
  | binary _ _ left right => left.names ++ right.names
  | conditional _ condition consequence alternative =>
    condition.names ++ consequence.names ++ alternative.names
  | function _ parameters body => namesOfAll parameters ++ body.names
  | call _ callee arguments => callee.names ++ namesOfAll arguments
  | array _ elements => namesOfAll elements
  | hash _ pairs => namesOfPairs pairs
  | index _ target key => target.names ++ key.names
  | missing => []
  | foreign => []

/-- The names in several nodes. -/
def namesOfAll : List Node → List String
  | [] => []
  | node :: rest => node.names ++ namesOfAll rest

/-- The names in pairs of nodes. -/
def namesOfPairs : List (Node × Node) → List String
  | [] => []
  | (key, value) :: rest => key.names ++ value.names ++ namesOfPairs rest

end

/-- The same node, in which a name does not occur. -/
def SameWithout (name : String) (node node' : Node) : Prop :=
  node = node' ∧ name ∉ node.names

variable {name : String}

theorem sameWithout_all {nodes : List Node} (h : name ∉ namesOfAll nodes) :
    List.Forall₂ (SameWithout name) nodes nodes := by
  induction nodes with
  | nil => exact .nil
  | cons node rest ih =>
      rw [namesOfAll, List.mem_append, not_or] at h
      exact .cons ⟨rfl, h.1⟩ (ih h.2)

theorem sameWithout_pairs {pairs : List (Node × Node)} (h : name ∉ namesOfPairs pairs) :
    List.Forall₂
      (fun pair pair' => SameWithout name pair.1 pair'.1 ∧ SameWithout name pair.2 pair'.2)
      pairs pairs := by
  induction pairs with
  | nil => exact .nil
  | cons pair rest ih =>
      obtain ⟨key, value⟩ := pair
      simp only [namesOfPairs, List.mem_append, not_or] at h
      exact .cons ⟨⟨rfl, h.1.1⟩, ⟨rfl, h.1.2⟩⟩ (ih h.2)

/-- The name occurs in no part of a node that it does not occur in. -/
theorem SameWithout.toMatch {node node' : Node} (h : SameWithout name node node') :
    node.Match (SameWithout name) (· != name) node' := by
  obtain ⟨rfl, h⟩ := h
  cases node with
  | program token statements => exact .program (sameWithout_all h)
  | letStatement token bound value =>
      rw [names, List.mem_append, not_or] at h
      exact .letStatement ⟨rfl, h.1⟩ ⟨rfl, h.2⟩
  | returnStatement token value => exact .returnStatement ⟨rfl, h⟩
  | expressionStatement token value => exact .expressionStatement ⟨rfl, h⟩
  | block token statements => exact .block (sameWithout_all h)
  | identifier token other =>
      refine .identifier ?_
      rw [names, List.mem_singleton] at h
      simpa using fun heq => h heq.symm
  | prefixed token operator right => exact .prefixed ⟨rfl, h⟩
  | binary token operator left right =>
      rw [names, List.mem_append, not_or] at h
      exact .binary ⟨rfl, h.1⟩ ⟨rfl, h.2⟩
  | conditional token condition consequence alternative =>
      simp only [names, List.mem_append, not_or] at h
      exact .conditional ⟨rfl, h.1.1⟩ ⟨rfl, h.1.2⟩ ⟨rfl, h.2⟩
  | function token parameters body =>
      rw [names, List.mem_append, not_or] at h
      exact .function (sameWithout_all h.1) ⟨rfl, h.2⟩
  | call token callee arguments =>
      rw [names, List.mem_append, not_or] at h
      exact .call ⟨rfl, h.1⟩ (sameWithout_all h.2)
  | array token elements => exact .array (sameWithout_all h)
  | hash token pairs => exact .hash (sameWithout_pairs h)
  | index token target key =>
      rw [names, List.mem_append, not_or] at h
      exact .index ⟨rfl, h.1⟩ ⟨rfl, h.2⟩
  | _ => constructor

end Node

/-! ## Scopes that a scope gets to -/

/-- The scopes that can be got to from a scope: itself, the scopes around those that can be got to,
and the scopes that the functions were made in that they bind. -/
inductive Store.GetsTo (store : Store) (start : ScopeId) : ScopeId → Prop where
  | start : GetsTo store start start
  | outer {scope outer : ScopeId} :
      GetsTo store start scope → store.outer? scope = some outer → GetsTo store start outer
  | held {scope other : ScopeId} {entry : String × Value} :
      GetsTo store start scope → entry ∈ store.bindings scope → entry.2.Captures other →
      GetsTo store start other

/-- No function that can be got to from a scope mentions the name, neither among its parameters nor
in its body. -/
def Store.FreeOf (store : Store) (start : ScopeId) (name : String) : Prop :=
  ∀ scope, store.GetsTo start scope → ∀ entry ∈ store.bindings scope,
    ∀ parameters body home, entry.2.Includes parameters body home →
      name ∉ Node.namesOfAll parameters ∧ name ∉ body.names

/-- The stores have the same scopes inside each other, and these bind the same names to the same
values in the same order, except for one name. -/
structure Store.SameBut (name : String) (store store' : Store) : Prop where
  next : store.next = store'.next
  outer : ∀ id, store.outer? id = store'.outer? id
  bindings : ∀ id, Table.restrict (· != name) (store.bindings id) =
    Table.restrict (· != name) (store'.bindings id)

theorem Table.restrict_insert_of_not {ν : Type} {names : String → Bool} {name : String}
    (h : names name = false) (value : ν) (table : List (String × ν)) :
    restrict names (insert name value table) = restrict names table := by
  induction table with
  | nil => simp [restrict, insert, h]
  | cons entry rest ih =>
      simp only [restrict] at ih
      by_cases hsame : entry.1 = name
      · simp [restrict, insert, hsame, h]
      · cases hentry : names entry.1 <;> simp [restrict, insert, hsame, hentry, ih]

theorem Store.sameBut_bind (store : Store) (scope : ScopeId) (name : String) (value : Value) :
    store.SameBut name (store.bind scope name value) where
  next := (next_bind ..).symm
  outer id := (outer?_bind ..).symm
  bindings id := by
    by_cases hsame : id = scope
    · subst hsame
      by_cases hlt : id < store.next
      · rw [bindings_bind_self hlt, Table.restrict_insert_of_not (by simp)]
      · have hle : (store.bind id name value).next ≤ id :=
          Nat.le_trans (Nat.le_of_eq (next_bind ..)) (Nat.le_of_not_lt hlt)
        rw [bindings_of_next_le hle, bindings_of_next_le (Nat.le_of_not_lt hlt)]
    · rw [bindings_bind_of_ne hsame]

/-! ## Two runs -/

theorem Console.write_congr {console console' : Console} (text : String) (h : console = console') :
    console.write text = console'.write text := by
  rw [h]

/-- Everything is the same in both runs, but for what one name is bound to. The name does not occur
in the code, and of the scopes those count that can be got to and those that are new. -/
def Correspondence.without (host : Host) (name : String) (start : Store) (scope : ScopeId) :
    Correspondence where
  nodes := Node.SameWithout name
  names := (· != name)
  scopes id := start.GetsTo scope id ∨ start.next ≤ id
  identities := Eq
  consoles := Eq
  logs := TraceLog.SameText
  host := host
  level' := host.traceLevel
  matches_of_nodes h := h.toMatch
  render_of_nodes h := congrArg Node.render h.1
  write text h := Console.write_congr text h
  record hlevel hline h := h.recordAt host hlevel hline

section

variable {host : Host} {name : String} {start : Store} {scope : ScopeId}

theorem Value.Alike.eq_of_without {value value' : Value}
    (h : value.Alike (.without host name start scope) value') : value = value' := by
  have hsame : value.SameSince 0 0 value' := h.mono .inl And.left fun _ => trivial
  exact hsame.eq

/-- Stores that differ in the name only are alike for what can be got to. -/
theorem Store.FreeOf.alike (h : start.FreeOf scope name) {store' : Store}
    (hsame : start.SameBut name store') : start.Alike (.without host name start scope) store' where
  next := hsame.next
  fresh id := .inr
  outer id _ := hsame.outer id
  closed := by
    rintro id outer (hid | hnew) houter
    · exact .inl (.outer hid houter)
    · rw [outer?_of_next_le hnew] at houter
      cases houter
  bindings := by
    rintro id (hid | hnew)
    · rw [Correspondence.without, ← hsame.bindings id]
      refine List.forall₂_same.2 fun entry hentry => ⟨rfl, ?_⟩
      have hbound : entry ∈ start.bindings id := List.mem_of_mem_filter hentry
      apply Value.alike_of_includes fun _ => rfl
      intro parameters body home hfunction
      obtain ⟨hparameters, hbody⟩ := h id hid entry hbound parameters body home hfunction
      exact ⟨Node.sameWithout_all hparameters, ⟨rfl, hbody⟩,
        .inl (.held hid hbound hfunction.captures)⟩
    · rw [bindings_of_next_le hnew, bindings_of_next_le (hsame.next ▸ hnew)]
      exact .nil

/-- If a scope that was there is changed in a run, it is the one that the run works in. So the
stores differ in the name only, in scopes that count as well as in those that do not. -/
theorem Store.Alike.sameBut {store' final final' : Store}
    (h : final.Alike (.without host name start scope) final') (hsame : start.SameBut name store')
    (hfinal : start.ChangesOnly scope final) (hfinal' : store'.ChangesOnly scope final') :
    final.SameBut name final' where
  next := h.next
  outer id := by
    by_cases hcounts : start.GetsTo scope id ∨ start.next ≤ id
    · exact h.outer id hcounts
    · have hid : id < start.next := Nat.lt_of_not_le fun hle => hcounts (.inr hle)
      rw [hfinal.outer id hid, hfinal'.outer id (hsame.next ▸ hid), hsame.outer]
  bindings id := by
    by_cases hcounts : start.GetsTo scope id ∨ start.next ≤ id
    · have hbindings := h.bindings id hcounts
      exact Table.Alike.eq (hbindings.imp fun _ _ hentry => ⟨hentry.1, hentry.2.eq_of_without⟩)
    · have hid : id < start.next := Nat.lt_of_not_le fun hle => hcounts (.inr hle)
      have hother : id ≠ scope := by
        rintro rfl
        exact hcounts (.inl .start)
      rw [hfinal.others id hid hother, hfinal'.others id (hsame.next ▸ hid) hother, hsame.bindings]

end

/-- A run changes the bindings of no scope that was there before but its own. -/
theorem Settings.moves_run (settings : Settings) (scope : ScopeId) (program : Node) :
    Eval.Moves (fun before after => before.store.ChangesOnly scope after.store)
      (settings.run scope program) := by
  have hpassage := passage_changesOnly settings.toHost scope
  refine hpassage.bind (hpassage.trace _) fun _ => ?_
  have hcalls : ∀ function arguments, Eval.Moves
      (fun before after => before.store.ChangesOnly scope after.store)
      (settings.call function arguments) := fun function arguments machine =>
    (extends_apply settings.toHost settings.depth function arguments machine).changesOnly scope
  refine hpassage.bind (hpassage.moves_evaluate hcalls program) fun value => ?_
  cases value with
  | error cause => exact hpassage.bind (hpassage.trace _) fun _ => hpassage.pure _
  | _ => exact hpassage.pure _

/-- The outcomes are the same, but for what one name is bound to: the same result or the same fault,
the same console, the same text of the trace, and the same bindings of all other names in all
scopes. -/
structure Outcome.SameBut (name : String) (outcome outcome' : Outcome Value) : Prop where
  result : outcome.result = outcome'.result
  console : outcome.machine.console = outcome'.machine.console
  trace : outcome.machine.log.text? = outcome'.machine.log.text?
  store : outcome.machine.store.SameBut name outcome'.machine.store

/-- If a name occurs neither in a program nor in any function that can be got to from the scope that
the program runs in, then it makes no difference to bind the name first, in that scope or in any
other one, to whatever value. -/
theorem Settings.run_unmentioned (settings : Settings) (machine : Machine) (scope : ScopeId)
    (program : Node) (name : String) (hprogram : name ∉ program.names)
    (hfunctions : machine.store.FreeOf scope name) (binder : ScopeId) (value : Value) :
    ((settings.run scope program).perform machine).SameBut name
      ((settings.run scope program).perform
        { machine with store := machine.store.bind binder name value }) := by
  let start : Machine := { machine with console := .empty }
  let start' : Machine := { start with store := machine.store.bind binder name value }
  have hsame : start.store.SameBut name start'.store := machine.store.sameBut_bind binder name value
  let c : Correspondence := .without settings.toHost name start.store scope
  have hstart : start.Alike c start' := ⟨hfunctions.alike hsame, fun _ => rfl, rfl, ⟨rfl, rfl⟩⟩
  have hresults : Eval.ResultsAlike c (Value.Alike c) (settings.run scope program start)
      (settings.run scope program start') :=
    alike_run c settings.depth (.inl .start) ⟨rfl, hprogram⟩ start start' hstart
  have hmoved := settings.moves_run scope program start
  have hmoved' := settings.moves_run scope program start'
  unfold Eval.machineAfter at hmoved hmoved'
  rw [Eval.perform, Eval.perform]
  generalize settings.run scope program start = result at hresults hmoved ⊢
  generalize settings.run scope program start' = result' at hresults hmoved' ⊢
  cases hresults with
  | ok hvalue hfinal =>
      exact ⟨congrArg Except.ok hvalue.eq_of_without, hfinal.console, hfinal.log.1,
        hfinal.store.sameBut hsame hmoved hmoved'⟩
  | error fault hfinal =>
      exact ⟨rfl, hfinal.console, hfinal.log.1, hfinal.store.sameBut hsame hmoved hmoved'⟩

/-- A global scope that binds a function which adds one, and a scope inside of it that is empty. -/
def Store.withSuccessor : Store :=
  let successor : Value := .closure 0 [.identifier default "n"]
    (.block default [.expressionStatement default
      (.binary default "+" (.identifier default "n") (.integer default 1))]) 0
  ((empty.addScope none).bind 0 "f" successor).addScope (some 0)

theorem Store.getsTo_withSuccessor {id : ScopeId} (h : withSuccessor.GetsTo 1 id) :
    id = 0 ∨ id = 1 := by
  induction h with
  | start => exact .inr rfl
  | outer _ houter ih =>
      rcases ih with rfl | rfl
      · cases houter
      · cases houter
        exact .inl rfl
  | held _ hentry hscope ih =>
      rcases ih with rfl | rfl
      · cases List.mem_singleton.1 hentry
        cases hscope
        exact .inl rfl
      · cases hentry

theorem Store.freeOf_withSuccessor : withSuccessor.FreeOf 1 "len" := by
  intro scope hscope entry hentry parameters body home hfunction
  rcases getsTo_withSuccessor hscope with rfl | rfl
  · cases List.mem_singleton.1 hentry
    cases hfunction
    decide
  · cases hentry

/-- A program that calls the function, and in which the name of a built-in function stands behind a
period only, does the same if that name is bound in the global scope. -/
theorem Settings.run_unmentioned_behindPeriod :
    let program := (Parse.ofSource "println(\x7b\"len\": f(2)\x7d.len)").program
    let plain := (run {} 1 program).perform { store := .withSuccessor }
    let bound := (run {} 1 program).perform
      { store := Store.withSuccessor.bind 0 "len" (.integer 7) }
    "len" ∉ program.names ∧ Store.withSuccessor.FreeOf 1 "len" ∧ plain.SameBut "len" bound ∧
      plain.written = "3\n" := by
  intro program plain bound
  have hprogram : "len" ∉ program.names := by decide +kernel
  have hsame : plain.SameBut "len" bound :=
    run_unmentioned {} { store := .withSuccessor } 1 program "len" hprogram
      Store.freeOf_withSuccessor 0 (.integer 7)
  exact ⟨hprogram, Store.freeOf_withSuccessor, hsame, by decide +kernel⟩

end MonkeyLanguage
