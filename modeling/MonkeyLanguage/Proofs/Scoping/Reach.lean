-- SUMMARY: A call depends on no scopes but those that its function and its arguments can get to.
import MonkeyLanguage.Proofs.Alike.Evaluation
import MonkeyLanguage.Proofs.Scoping.Writes

/-!
# What calls depend on

A function can get to the scope that it was made in, to the scopes around that one, and on to
whatever scopes the functions were made in that these scopes bind, directly or inside of data. A
call depends on the scopes that its function and its arguments can get to in this way, and on
nothing else. In particular it does not depend on the scope that it is called from, unless that is
one of them.

Two calls that are compared may start when different numbers of closures have been made. Then the
closures that they make have different identities, and nothing else about them differs.
-/

namespace MonkeyLanguage

/-! ## Scopes that values get to -/

/-- A function in the value was made in the scope. -/
inductive Value.Captures : Value → ScopeId → Prop where
  | closure {identity : Nat} {parameters : List Node} {body : Node} {scope : ScopeId} :
      Captures (.closure identity parameters body scope) scope
  | returned {value : Value} {scope : ScopeId} :
      Captures value scope → Captures (.returned value) scope
  | element {elements : List Value} {element : Value} {scope : ScopeId} :
      element ∈ elements → Captures element scope → Captures (.array elements) scope
  | entry {entries : List (HashKey × Value)} {entry : HashKey × Value} {scope : ScopeId} :
      entry ∈ entries → Captures entry.2 scope → Captures (.hash entries) scope

/-- A function with this code, made in this scope, is the value or is inside of it. -/
inductive Value.Includes (parameters : List Node) (body : Node) (scope : ScopeId) : Value → Prop where
  | closure {identity : Nat} :
      Includes parameters body scope (.closure identity parameters body scope)
  | returned {value : Value} :
      Includes parameters body scope value → Includes parameters body scope (.returned value)
  | element {elements : List Value} {element : Value} :
      element ∈ elements → Includes parameters body scope element →
      Includes parameters body scope (.array elements)
  | entry {entries : List (HashKey × Value)} {entry : HashKey × Value} :
      entry ∈ entries → Includes parameters body scope entry.2 →
      Includes parameters body scope (.hash entries)

/-- The scopes that some values can get to. -/
inductive Store.Reachable (store : Store) (values : List Value) : ScopeId → Prop where
  | captured {value : Value} {scope : ScopeId} :
      value ∈ values → value.Captures scope → Reachable store values scope
  | outer {scope outer : ScopeId} :
      Reachable store values scope → store.outer? scope = some outer →
      Reachable store values outer
  | held {scope other : ScopeId} {entry : String × Value} :
      Reachable store values scope → entry ∈ store.bindings scope → entry.2.Captures other →
      Reachable store values other

/-- The stores have the same scopes, and they agree about some of them. -/
structure Store.AgreesOn (scopes : ScopeId → Prop) (store store' : Store) : Prop where
  next : store.next = store'.next
  outer : ∀ id, scopes id → store.outer? id = store'.outer? id
  bindings : ∀ id, scopes id → store.bindings id = store'.bindings id

/-! ## The same but for new closures -/

theorem Node.match_self {nodes : Node → Node → Prop} {names : String → Bool}
    (hnodes : ∀ node, nodes node node) (hnames : ∀ name, names name = true) (node : Node) :
    node.Match nodes names node := by
  have hall : ∀ children : List Node, List.Forall₂ nodes children children := fun children =>
    List.forall₂_same.2 fun child _ => hnodes child
  cases node with
  | program => exact .program (hall _)
  | letStatement => exact .letStatement (hnodes _) (hnodes _)
  | returnStatement => exact .returnStatement (hnodes _)
  | expressionStatement => exact .expressionStatement (hnodes _)
  | block => exact .block (hall _)
  | identifier => exact .identifier (hnames _)
  | prefixed => exact .prefixed (hnodes _)
  | binary => exact .binary (hnodes _) (hnodes _)
  | conditional => exact .conditional (hnodes _) (hnodes _) (hnodes _)
  | function => exact .function (hall _) (hnodes _)
  | call => exact .call (hnodes _) (hall _)
  | array => exact .array (hall _)
  | hash => exact .hash (List.forall₂_same.2 fun pair _ => ⟨hnodes _, hnodes _⟩)
  | index => exact .index (hnodes _) (hnodes _)
  | _ => constructor

/-- Whatever there is in both runs corresponds to itself. -/
structure Correspondence.Reflexive (c : Correspondence) : Prop where
  identities : ∀ identity, c.identities identity identity
  nodes : ∀ node, c.nodes node node

/-- Identities correspond if they are the same, or if they go to closures that two runs made as
their first, their second and so on. -/
def SameIdentity (start start' : Nat) (identity identity' : Nat) : Prop :=
  identity = identity' ∨ ∃ made, identity = start + made ∧ identity' = start' + made

/-- Everything that corresponds is the same, but for the closures that are made after the start.
Of the scopes only those count that can be reached and those that are new, and of the consoles
what is written to them after the start. -/
def Correspondence.since (host : Host) (start start' : Machine) (reached : ScopeId → Prop) :
    Correspondence where
  nodes := Eq
  names _ := true
  scopes id := reached id ∨ start.store.next ≤ id
  identities := SameIdentity start.closures start'.closures
  consoles console console' := ∃ texts,
    console.texts = start.console.texts ++ texts ∧ console'.texts = start'.console.texts ++ texts
  logs _ _ := True
  host := host
  level' := host.traceLevel
  matches_of_nodes := by
    rintro node _ rfl
    exact node.match_self (fun _ => rfl) fun _ => rfl
  render_of_nodes h := congrArg Node.render h
  write := by
    rintro console console' text ⟨texts, h, h'⟩
    refine ⟨texts.push text, ?_, ?_⟩
    · rw [Console.write, h, Array.push_append]
    · rw [Console.write, h', Array.push_append]
  record _ _ _ := trivial

/-- Everything that corresponds is the same, but for closures that are made after so many. -/
def Correspondence.renumbered (start start' : Nat) : Correspondence where
  nodes := Eq
  names _ := true
  scopes _ := True
  identities := SameIdentity start start'
  consoles _ _ := True
  logs _ _ := True
  host := {}
  level' := 0
  matches_of_nodes := by
    rintro node _ rfl
    exact node.match_self (fun _ => rfl) fun _ => rfl
  render_of_nodes h := congrArg Node.render h
  write _ _ := trivial
  record _ _ _ := trivial

theorem Table.Alike.eq {κ ν : Type} {table table' : List (κ × ν)}
    (h : Table.Alike Eq table table') : table = table' := by
  have hentries : List.Forall₂ Eq table table' := h.imp fun _ _ hentry => Prod.ext hentry.1 hentry.2
  rwa [List.forall₂_eq_eq_eq] at hentries

namespace Value

/-- The same value, but for closures that two runs made when so many had been made before. -/
abbrev SameSince (start start' : Nat) : Value → Value → Prop :=
  Value.Alike (.renumbered start start')

theorem Alike.mono {c c' : Correspondence} {value value' : Value} (h : value.Alike c value')
    (hidentities : ∀ {identity identity'}, c.identities identity identity' →
      c'.identities identity identity')
    (hnodes : ∀ {node node'}, c.nodes node node' → c'.nodes node node')
    (hscopes : ∀ {scope}, c.scopes scope → c'.scopes scope) : value.Alike c' value' := by
  induction h with
  | returned _ ih => exact .returned ih
  | closure hidentity hparameters hbody hscope =>
      exact .closure (hidentities hidentity) (hparameters.imp fun _ _ => hnodes) (hnodes hbody)
        (hscopes hscope)
  | array hlength _ ih => exact .array hlength ih
  | hash hkeys _ ih => exact .hash hkeys ih
  | _ => constructor

theorem Alike.sameSince {host : Host} {start start' : Machine} {reached : ScopeId → Prop}
    {value value' : Value} (h : value.Alike (.since host start start' reached) value') :
    value.SameSince start.closures start'.closures value' :=
  h.mono id id fun _ => trivial

/-- If as many closures had been made, it is the same value. -/
theorem SameSince.eq {start : Nat} {value value' : Value} (h : value.SameSince start start value') :
    value = value' := by
  induction h with
  | returned _ ih => rw [ih]
  | closure hidentity hparameters hbody _ =>
      have hsame : ∀ {identity identity' : Nat}, SameIdentity start start identity identity' →
          identity = identity' := by
        rintro _ _ (rfl | ⟨made, rfl, rfl⟩) <;> rfl
      change List.Forall₂ Eq _ _ at hparameters
      rw [List.forall₂_eq_eq_eq] at hparameters
      change _ = _ at hbody
      rw [hsame hidentity, hparameters, hbody]
  | array hlength _ ih =>
      have helements : List.Forall₂ Eq _ _ :=
        List.forall₂_iff_zip.2 ⟨hlength, fun hpair => ih _ hpair⟩
      rw [List.forall₂_eq_eq_eq] at helements
      rw [helements]
  | hash hkeys _ ih =>
      have hentries : Table.Alike Eq _ _ := Table.alike_iff_zip.2 ⟨hkeys, ih⟩
      rw [hentries.eq]
  | _ => rfl

theorem Includes.captures {parameters : List Node} {body : Node} {scope : ScopeId} {value : Value}
    (h : value.Includes parameters body scope) : value.Captures scope := by
  induction h with
  | closure => exact .closure
  | returned _ ih => exact .returned ih
  | element helement _ ih => exact .element helement ih
  | entry hentry _ ih => exact .entry hentry ih

mutual

/-- A value is alike itself if the functions inside of it are. -/
theorem alike_of_includes {c : Correspondence}
    (hidentities : ∀ identity, c.identities identity identity) (value : Value)
    (h : ∀ parameters body scope, value.Includes parameters body scope →
      List.Forall₂ c.nodes parameters parameters ∧ c.nodes body body ∧ c.scopes scope) :
    value.Alike c value := by
  cases value with
  | returned value =>
      exact .returned (alike_of_includes hidentities value fun parameters body scope hfunction =>
        h parameters body scope (.returned hfunction))
  | closure identity parameters body scope =>
      obtain ⟨hparameters, hbody, hscope⟩ := h parameters body scope .closure
      exact .closure (hidentities identity) hparameters hbody hscope
  | array elements =>
      have helements := alike_of_includes_all hidentities elements
        fun element helement parameters body scope hfunction =>
          h parameters body scope (.element helement hfunction)
      exact alike_array_iff.2 (List.forall₂_same.2 helements)
  | hash entries =>
      have hentries := alike_of_includes_entries hidentities entries
        fun entry hentry parameters body scope hfunction =>
          h parameters body scope (.entry hentry hfunction)
      exact alike_hash_iff.2 (List.forall₂_same.2 fun entry hentry => ⟨rfl, hentries entry hentry⟩)
  | _ => constructor
termination_by structural value

theorem alike_of_includes_all {c : Correspondence}
    (hidentities : ∀ identity, c.identities identity identity) (values : List Value)
    (h : ∀ value ∈ values, ∀ parameters body scope, value.Includes parameters body scope →
      List.Forall₂ c.nodes parameters parameters ∧ c.nodes body body ∧ c.scopes scope) :
    ∀ value ∈ values, value.Alike c value := by
  cases values with
  | nil => exact nofun
  | cons value rest =>
      obtain ⟨hvalue, hrest⟩ := List.forall_mem_cons.1 h
      exact List.forall_mem_cons.2
        ⟨alike_of_includes hidentities value hvalue, alike_of_includes_all hidentities rest hrest⟩
termination_by structural values

theorem alike_of_includes_entries {c : Correspondence}
    (hidentities : ∀ identity, c.identities identity identity) (entries : List (HashKey × Value))
    (h : ∀ entry ∈ entries, ∀ parameters body scope, entry.2.Includes parameters body scope →
      List.Forall₂ c.nodes parameters parameters ∧ c.nodes body body ∧ c.scopes scope) :
    ∀ entry ∈ entries, entry.2.Alike c entry.2 := by
  match entries with
  | [] => exact nofun
  | (key, value) :: rest =>
      obtain ⟨hvalue, hrest⟩ := List.forall_mem_cons.1 h
      exact List.forall_mem_cons.2
        ⟨alike_of_includes hidentities value hvalue,
          alike_of_includes_entries hidentities rest hrest⟩
termination_by structural entries

end

/-- A value is alike itself if the scopes that its functions were made in count. -/
theorem alike_self {c : Correspondence} (hc : c.Reflexive) (value : Value)
    (h : ∀ scope, value.Captures scope → c.scopes scope) : value.Alike c value := by
  apply alike_of_includes hc.identities
  intro parameters body scope hfunction
  exact ⟨List.forall₂_same.2 fun parameter _ => hc.nodes parameter, hc.nodes body,
    h scope hfunction.captures⟩

end Value

/-! ## Calls that start on two machines -/

theorem Correspondence.reflexive_since (host : Host) (start start' : Machine)
    (reached : ScopeId → Prop) : (since host start start' reached).Reflexive :=
  ⟨fun _ => .inl rfl, fun _ => rfl⟩

/-- Machines with stores that agree about what some values can get to are alike for these values. -/
theorem Machine.alike_since (host : Host) {start start' : Machine} {values : List Value}
    (h : start.store.AgreesOn (start.store.Reachable values) start'.store) :
    start.Alike (.since host start start' (start.store.Reachable values)) start' := by
  refine ⟨⟨h.next, fun id => .inr, ?_, ?_, ?_⟩, fun made => .inr ⟨made, rfl, rfl⟩,
    ⟨#[], by simp⟩, trivial⟩
  · rintro id (hreached | hnew)
    · exact h.outer id hreached
    · rw [Store.outer?_of_next_le hnew, Store.outer?_of_next_le (h.next ▸ hnew)]
  · rintro id outer (hreached | hnew) houter
    · exact .inl (.outer hreached houter)
    · rw [Store.outer?_of_next_le hnew] at houter
      cases houter
  · rintro id (hreached | hnew)
    · rw [← h.bindings id hreached]
      refine List.forall₂_same.2 fun entry hentry => ⟨rfl, ?_⟩
      apply Value.alike_self (Correspondence.reflexive_since ..)
      exact fun scope hscope => .inl (.held hreached (List.mem_of_mem_filter hentry) hscope)
    · rw [Store.bindings_of_next_le hnew, Store.bindings_of_next_le (h.next ▸ hnew)]
      exact .nil

namespace Eval

/-- The same kind of ending: values that are the same, or one and the same fault. -/
inductive SameEnding (same : Value → Value → Prop) :
    EStateM.Result Fault Machine Value → EStateM.Result Fault Machine Value → Prop where
  | value {value value' : Value} {final final' : Machine} :
      same value value' → SameEnding same (.ok value final) (.ok value' final')
  | fault {fault : Fault} {final final' : Machine} :
      SameEnding same (.error fault final) (.error fault final')

/-- The computation does the same on both machines: it ends in the same way, writes the same, and
opens as many scopes, in the same places and with the same bindings in the end. -/
structure SameEffect (same : Value → Value → Prop) (computation : Eval Value)
    (start start' : Machine) : Prop where
  ending : SameEnding same (computation start) (computation start')
  written : ∃ texts,
    (computation.machineAfter start).console.texts = start.console.texts ++ texts ∧
      (computation.machineAfter start').console.texts = start'.console.texts ++ texts
  next : (computation.machineAfter start).store.next = (computation.machineAfter start').store.next
  outer : ∀ id, start.store.next ≤ id →
    (computation.machineAfter start).store.outer? id =
      (computation.machineAfter start').store.outer? id
  bindings : ∀ id, start.store.next ≤ id →
    Table.Alike same ((computation.machineAfter start).store.bindings id)
      ((computation.machineAfter start').store.bindings id)

variable {computation : Eval Value} {start start' : Machine}

theorem SameEnding.mono {same other : Value → Value → Prop}
    {result result' : EStateM.Result Fault Machine Value} (h : SameEnding same result result')
    (hsame : ∀ value value', same value value' → other value value') :
    SameEnding other result result' := by
  cases h with
  | value hvalue => exact .value (hsame _ _ hvalue)
  | fault => exact .fault

theorem SameEffect.mono {same other : Value → Value → Prop}
    (h : SameEffect same computation start start')
    (hsame : ∀ value value', same value value' → other value value') :
    SameEffect other computation start start' where
  ending := h.ending.mono hsame
  written := h.written
  next := h.next
  outer := h.outer
  bindings id hid := (h.bindings id hid).imp fun _ _ hentry => ⟨hentry.1, hsame _ _ hentry.2⟩

theorem ResultsAlike.machineAfter {c : Correspondence} {computation' : Eval Value}
    (h : ResultsAlike c (Value.Alike c) (computation start) (computation' start')) :
    (computation.machineAfter start).Alike c (computation'.machineAfter start') := by
  cases hresult : computation start with
  | ok value final =>
      cases hresult' : computation' start' with
      | ok value' final' =>
          rw [hresult, hresult'] at h
          rw [machineAfter_of_ok hresult, machineAfter_of_ok hresult']
          cases h with
          | ok _ hfinal => exact hfinal
      | error fault final' =>
          rw [hresult, hresult'] at h
          cases h
  | error fault final =>
      cases hresult' : computation' start' with
      | ok value' final' =>
          rw [hresult, hresult'] at h
          cases h
      | error fault' final' =>
          rw [hresult, hresult'] at h
          rw [machineAfter_of_error hresult, machineAfter_of_error hresult']
          cases h with
          | error _ hfinal => exact hfinal

theorem ResultsAlike.sameEnding {c : Correspondence}
    {result result' : EStateM.Result Fault Machine Value}
    (h : ResultsAlike c (Value.Alike c) result result') :
    SameEnding (Value.Alike c) result result' := by
  cases h with
  | ok hvalue => exact .value hvalue
  | error => exact .fault

theorem ResultsAlike.sameEffect {host : Host} {reached : ScopeId → Prop}
    (h : ResultsAlike (.since host start start' reached)
      (Value.Alike (.since host start start' reached)) (computation start) (computation start')) :
    SameEffect (Value.SameSince start.closures start'.closures) computation start start' where
  ending := h.sameEnding.mono fun _ _ hvalue => hvalue.sameSince
  written := h.machineAfter.console
  next := h.machineAfter.store.next
  outer id hid := h.machineAfter.store.outer id (.inr hid)
  bindings id hid :=
    (h.machineAfter.store.bindings_alike (fun _ => rfl) id (.inr hid)).imp fun _ _ hentry =>
      ⟨hentry.1, hentry.2.sameSince⟩

end Eval

/-- A call does the same on any two machines that agree about the scopes that the function and the
arguments can get to. So if a scope is not among them, it makes no difference what it binds. -/
theorem Settings.call_sees_reachable (settings : Settings) (function : Value)
    (arguments : List Value) :
    (∀ start start' : Machine,
      start.store.AgreesOn (start.store.Reachable (function :: arguments)) start'.store →
      Eval.SameEffect (Value.SameSince start.closures start'.closures)
        (settings.call function arguments) start start') ∧
    ∀ (start : Machine) (store : Store) (caller : ScopeId),
      ¬ start.store.Reachable (function :: arguments) caller →
      start.store.AgreesOn (· ≠ caller) store →
      Eval.SameEffect Eq (settings.call function arguments) start { start with store } := by
  have hcall : ∀ start start' : Machine,
      start.store.AgreesOn (start.store.Reachable (function :: arguments)) start'.store →
      Eval.SameEffect (Value.SameSince start.closures start'.closures)
        (settings.call function arguments) start start' := by
    intro start start' hagrees
    have hstart := Machine.alike_since settings.toHost hagrees
    have hroot : ∀ value ∈ function :: arguments,
        value.Alike (.since settings.toHost start start'
          (start.store.Reachable (function :: arguments))) value := by
      intro value hvalue
      apply Value.alike_self (Correspondence.reflexive_since ..)
      exact fun scope hscope => .inl (.captured hvalue hscope)
    obtain ⟨hfunction, harguments⟩ := List.forall_mem_cons.1 hroot
    have hcalls := callsAlike (.since settings.toHost start start'
      (start.store.Reachable (function :: arguments))) settings.depth
    exact (hcalls _ _ _ _ hfunction (List.forall₂_same.2 harguments) _ _ hstart).sameEffect
  refine ⟨hcall, fun start store caller hcaller hagrees => ?_⟩
  have hreached : ∀ id, start.store.Reachable (function :: arguments) id → id ≠ caller := by
    rintro id hid rfl
    exact hcaller hid
  have hagrees' : start.store.AgreesOn (start.store.Reachable (function :: arguments)) store :=
    ⟨hagrees.next, fun id hid => hagrees.outer id (hreached id hid),
      fun id hid => hagrees.bindings id (hreached id hid)⟩
  exact (hcall start { start with store } hagrees').mono fun value value' hvalue => hvalue.eq

/-- A global scope that binds a name, and a scope inside of it that binds the name once more. -/
def Store.shadowing (value : Int) : Store :=
  (((empty.addScope none).bind 0 "x" (.integer 1)).addScope (some 0)).bind 1 "x" (.integer value)

/-- A function without parameters, made in the global scope, that answers with the value of that
name. -/
def Value.readGlobal : Value :=
  .closure 0 [] (.block default [.expressionStatement default (.identifier default "x")]) 0

theorem Store.eq_of_reachable_readGlobal {id : ScopeId}
    (h : (shadowing 2).Reachable [Value.readGlobal] id) : id = 0 := by
  induction h with
  | captured hvalue hscope =>
      cases List.mem_singleton.1 hvalue
      cases hscope
      rfl
  | outer _ houter ih =>
      subst ih
      cases houter
  | held _ hentry hscope ih =>
      subst ih
      cases List.mem_singleton.1 hentry
      cases hscope

/-- What the scope inside binds makes no difference to a call of that function. -/
theorem Settings.call_sees_reachable_readGlobal :
    (¬ (Store.shadowing 2).Reachable [Value.readGlobal] 1) ∧
      (Store.shadowing 2).AgreesOn (· ≠ 1) (Store.shadowing 3) ∧
      (Store.shadowing 2).AgreesOn ((Store.shadowing 2).Reachable [Value.readGlobal])
        (Store.shadowing 3) ∧
      Eval.SameEffect Eq (Settings.call {} Value.readGlobal []) { store := .shadowing 2 }
        { store := .shadowing 3 } ∧
      Eval.SameEffect (Value.SameSince 5 0) (Settings.call {} Value.readGlobal [])
        { store := .shadowing 2, closures := 5 } { store := .shadowing 3 } := by
  have hcaller : ¬ (Store.shadowing 2).Reachable [Value.readGlobal] 1 := by
    intro h
    cases Store.eq_of_reachable_readGlobal h
  have hagrees : (Store.shadowing 2).AgreesOn (· ≠ 1) (Store.shadowing 3) :=
    ⟨rfl, fun id _ => by simp [Store.shadowing], fun id hid => by
      rw [Store.shadowing, Store.shadowing, Store.bindings_bind_of_ne hid,
        Store.bindings_bind_of_ne hid]⟩
  have hreached : (Store.shadowing 2).AgreesOn ((Store.shadowing 2).Reachable [Value.readGlobal])
      (Store.shadowing 3) := by
    refine ⟨rfl, fun id hid => ?_, fun id hid => ?_⟩
    · rw [Store.eq_of_reachable_readGlobal hid]
      rfl
    · rw [Store.eq_of_reachable_readGlobal hid]
      rfl
  obtain ⟨hany, hother⟩ := call_sees_reachable {} Value.readGlobal []
  exact ⟨hcaller, hagrees, hreached, hother { store := .shadowing 2 } _ 1 hcaller hagrees,
    hany { store := .shadowing 2, closures := 5 } { store := .shadowing 3 } hreached⟩

end MonkeyLanguage
