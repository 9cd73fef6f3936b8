-- SUMMARY: Runs of the same program from different places, one with texts written before.
import MonkeyLanguage.Proofs.Reading.Places
import MonkeyLanguage.Proofs.Scoping.Reach

/-!
# Runs and places

Nothing in a run depends on where the tokens of a program stand, and nothing depends on what was
written before or on the log. What a run leaves in its scopes is then the same, except that the
code of functions is from other places.
-/

namespace MonkeyLanguage

/-! ## Trees that differ in places only -/

namespace Node

theorem orNothing_unplaced (node : Node) (text : String) :
    node.unplaced.orNothing text = node.orNothing text := by
  cases node <;> rfl

theorem isExpressionStatement_unplaced (node : Node) :
    node.unplaced.isExpressionStatement = node.isExpressionStatement := by
  cases node <;> rfl

mutual

theorem render_unplaced (node : Node) : node.unplaced.render = node.render := by
  cases node with
  | program _ statements => simp only [unplaced, render, renderStatements_unplaced statements]
  | letStatement _ name value =>
      simp only [unplaced, render, Token.literal_unplaced, orNothing_unplaced,
        render_unplaced name, render_unplaced value]
  | returnStatement _ value =>
      simp only [unplaced, render, Token.literal_unplaced, orNothing_unplaced,
        render_unplaced value]
  | expressionStatement _ value =>
      simp only [unplaced, render, orNothing_unplaced, render_unplaced value]
  | block _ statements =>
      have hstatements := renderStatements_unplaced statements
      cases statements with
      | nil => rfl
      | cons statement rest =>
          simp only [unplacedAll] at hstatements
          simp only [unplaced, unplacedAll, render, hstatements]
  | prefixed _ operator right =>
      simp only [unplaced, render, orNothing_unplaced, render_unplaced right]
  | binary _ operator left right =>
      simp only [unplaced, render, orNothing_unplaced, render_unplaced left,
        render_unplaced right]
  | conditional _ condition consequence alternative =>
      simp only [unplaced, render, orNothing_unplaced, render_unplaced condition,
        render_unplaced consequence, render_unplaced alternative]
  | function _ parameters body =>
      simp only [unplaced, render, Token.literal_unplaced, renderAll_unplaced parameters,
        render_unplaced body]
  | call _ callee arguments =>
      simp only [unplaced, render, render_unplaced callee, renderAll_unplaced arguments]
  | array _ elements => simp only [unplaced, render, renderAll_unplaced elements]
  | hash _ pairs => simp only [unplaced, render, renderPairs_unplaced pairs]
  | index _ target key =>
      simp only [unplaced, render, render_unplaced target, render_unplaced key]
  | _ => rfl
termination_by structural node

theorem renderStatements_unplaced (statements : List Node) :
    renderStatements (unplacedAll statements) = renderStatements statements := by
  cases statements with
  | nil => rfl
  | cons statement rest =>
      have hempty : (unplacedAll rest).isEmpty = rest.isEmpty := by cases rest <;> rfl
      simp only [unplacedAll, renderStatements, render_unplaced statement,
        renderStatements_unplaced rest, isExpressionStatement_unplaced, hempty]
termination_by structural statements

theorem renderAll_unplaced (nodes : List Node) :
    renderAll (unplacedAll nodes) = renderAll nodes := by
  cases nodes with
  | nil => rfl
  | cons node rest =>
      simp only [unplacedAll, renderAll, render_unplaced node, renderAll_unplaced rest]
termination_by structural nodes

theorem renderPairs_unplaced (pairs : List (Node × Node)) :
    renderPairs (unplacedPairs pairs) = renderPairs pairs := by
  match pairs with
  | [] => rfl
  | (key, value) :: rest =>
      simp only [unplacedPairs, renderPairs, render_unplaced key, render_unplaced value,
        renderPairs_unplaced rest]
termination_by structural pairs

end

/-- The trees are the same, but for the places of tokens. -/
def SameButPlaces (node node' : Node) : Prop := node.unplaced = node'.unplaced

theorem forall₂_map_eq {α β : Type} {f : α → β} {items items' : List α} :
    List.Forall₂ (fun item item' => f item = f item') items items' ↔
      items.map f = items'.map f := by
  rw [← List.forall₂_eq_eq_eq, List.forall₂_map_left_iff, List.forall₂_map_right_iff]

/-- Such trees are of one kind, with the same data. -/
theorem SameButPlaces.toMatch {node node' : Node} (h : node.SameButPlaces node') :
    node.Match SameButPlaces (fun _ => true) node' := by
  have hall {nodes nodes' : List Node} (heq : unplacedAll nodes = unplacedAll nodes') :
      List.Forall₂ SameButPlaces nodes nodes' :=
    forall₂_map_eq.2 (by simpa using heq)
  have hallPairs {pairs pairs' : List (Node × Node)}
      (heq : unplacedPairs pairs = unplacedPairs pairs') :
      List.Forall₂ (fun pair pair' => SameButPlaces pair.1 pair'.1 ∧ SameButPlaces pair.2 pair'.2)
        pairs pairs' := by
    rw [unplacedPairs_eq_map, unplacedPairs_eq_map, ← forall₂_map_eq] at heq
    exact heq.imp fun _ _ hpair => Prod.mk.inj hpair
  rw [SameButPlaces] at h
  cases node with
  | program token statements =>
      cases node' with
      | program =>
          obtain ⟨-, hstatements⟩ := Node.program.inj h
          exact .program (hall hstatements)
      | _ => cases h
  | letStatement token name value =>
      cases node' with
      | letStatement =>
          obtain ⟨-, hname, hvalue⟩ := Node.letStatement.inj h
          exact .letStatement hname hvalue
      | _ => cases h
  | returnStatement token value =>
      cases node' with
      | returnStatement =>
          obtain ⟨-, hvalue⟩ := Node.returnStatement.inj h
          exact .returnStatement hvalue
      | _ => cases h
  | expressionStatement token value =>
      cases node' with
      | expressionStatement =>
          obtain ⟨-, hvalue⟩ := Node.expressionStatement.inj h
          exact .expressionStatement hvalue
      | _ => cases h
  | block token statements =>
      cases node' with
      | block =>
          obtain ⟨-, hstatements⟩ := Node.block.inj h
          exact .block (hall hstatements)
      | _ => cases h
  | identifier token name =>
      cases node' with
      | identifier =>
          obtain ⟨-, rfl⟩ := Node.identifier.inj h
          exact .identifier rfl
      | _ => cases h
  | integer token value =>
      cases node' with
      | integer =>
          obtain ⟨-, rfl⟩ := Node.integer.inj h
          exact .integer value
      | _ => cases h
  | string token text =>
      cases node' with
      | string =>
          obtain ⟨-, rfl⟩ := Node.string.inj h
          exact .string text
      | _ => cases h
  | boolean token value =>
      cases node' with
      | boolean =>
          obtain ⟨-, rfl⟩ := Node.boolean.inj h
          exact .boolean value
      | _ => cases h
  | prefixed token operator right =>
      cases node' with
      | prefixed =>
          obtain ⟨-, rfl, hright⟩ := Node.prefixed.inj h
          exact .prefixed hright
      | _ => cases h
  | binary token operator left right =>
      cases node' with
      | binary =>
          obtain ⟨-, rfl, hleft, hright⟩ := Node.binary.inj h
          exact .binary hleft hright
      | _ => cases h
  | conditional token condition consequence alternative =>
      cases node' with
      | conditional =>
          obtain ⟨-, hcondition, hconsequence, halternative⟩ := Node.conditional.inj h
          exact .conditional hcondition hconsequence halternative
      | _ => cases h
  | function token parameters body =>
      cases node' with
      | function =>
          obtain ⟨-, hparameters, hbody⟩ := Node.function.inj h
          exact .function (hall hparameters) hbody
      | _ => cases h
  | call token callee arguments =>
      cases node' with
      | call =>
          obtain ⟨-, hcallee, harguments⟩ := Node.call.inj h
          exact .call hcallee (hall harguments)
      | _ => cases h
  | array token elements =>
      cases node' with
      | array =>
          obtain ⟨-, helements⟩ := Node.array.inj h
          exact .array (hall helements)
      | _ => cases h
  | hash token pairs =>
      cases node' with
      | hash =>
          obtain ⟨-, hpairs⟩ := Node.hash.inj h
          exact .hash (hallPairs hpairs)
      | _ => cases h
  | index token target key =>
      cases node' with
      | index =>
          obtain ⟨-, htarget, hkey⟩ := Node.index.inj h
          exact .index htarget hkey
      | _ => cases h
  | missing =>
      cases node' with
      | missing => exact .missing
      | _ => cases h
  | foreign =>
      cases node' with
      | foreign => exact .foreign
      | _ => cases h

end Node

/-! ## Values and scopes without places -/

namespace Value

mutual

/-- The same value, with the code of functions from no place. -/
def unplaced : Value → Value
  | returned value => .returned value.unplaced
  | closure identity parameters body scope =>
    .closure identity (parameters.map Node.unplaced) body.unplaced scope
  | array elements => .array (unplacedAll elements)
  | hash entries => .hash (unplacedEntries entries)
  | value => value

/-- The same values, with the code of functions from no place. -/
def unplacedAll : List Value → List Value
  | [] => []
  | value :: rest => value.unplaced :: unplacedAll rest

/-- The same entries of a hash, with the code of functions from no place. -/
def unplacedEntries : List (HashKey × Value) → List (HashKey × Value)
  | [] => []
  | (key, value) :: rest => (key, value.unplaced) :: unplacedEntries rest

end

theorem unplacedAll_eq_map (values : List Value) : unplacedAll values = values.map unplaced := by
  induction values with
  | nil => rfl
  | cons value rest ih => rw [unplacedAll, ih, List.map_cons]

theorem unplacedEntries_eq_map (entries : List (HashKey × Value)) :
    unplacedEntries entries = entries.map fun entry => (entry.1, entry.2.unplaced) := by
  induction entries with
  | nil => rfl
  | cons entry rest ih =>
      obtain ⟨key, value⟩ := entry
      rw [unplacedEntries, ih, List.map_cons]

end Value

namespace Store

/-- The same scopes, with the code of functions from no place. -/
def unplaced (store : Store) : Store :=
  ⟨store.scopes.map fun scope =>
    { scope with bindings := scope.bindings.map fun entry => (entry.1, entry.2.unplaced) }⟩

theorem next_unplaced (store : Store) : store.unplaced.next = store.next :=
  Array.size_map ..

theorem outer?_unplaced (store : Store) (id : ScopeId) :
    store.unplaced.outer? id = store.outer? id := by
  simp only [outer?, unplaced, Array.getElem?_map]
  cases store.scopes[id]? <;> rfl

theorem bindings_unplaced (store : Store) (id : ScopeId) :
    store.unplaced.bindings id =
      (store.bindings id).map fun entry => (entry.1, entry.2.unplaced) := by
  simp only [bindings, unplaced, Array.getElem?_map]
  cases store.scopes[id]? <;> rfl

end Store

/-! ## Correspondence -/

/-- Code that corresponds is the same but for places, everything else is the same. To the second
console some texts have been written before. -/
def Correspondence.places (host : Host) (earlier : List String) : Correspondence where
  nodes := Node.SameButPlaces
  names _ := true
  scopes _ := True
  identities := Eq
  consoles console console' := console'.texts.toList = earlier ++ console.texts.toList
  logs _ _ := True
  host := host
  level' := host.traceLevel
  matches_of_nodes h := h.toMatch
  render_of_nodes {node node'} h := by
    rw [← node.render_unplaced, h, node'.render_unplaced]
  write text h := by simp [Console.write, h]
  record _ _ _ := trivial

variable {host : Host} {earlier : List String}

theorem Value.Alike.unplaced_eq {value value' : Value}
    (h : value.Alike (.places host earlier) value') : value.unplaced = value'.unplaced := by
  induction h with
  | returned _ ih => rw [Value.unplaced, Value.unplaced, ih]
  | closure hidentity hparameters hbody _ =>
      rw [Value.unplaced, Value.unplaced, Node.forall₂_map_eq.1 hparameters, hbody, hidentity]
  | array hlength _ ih =>
      have helements := List.forall₂_iff_zip.2 ⟨hlength, fun hpair => ih _ hpair⟩
      rw [Value.unplaced, Value.unplaced, unplacedAll_eq_map, unplacedAll_eq_map,
        map_eq_of_forall₂ helements fun _ _ heq => heq]
  | hash hkeys _ ih =>
      have hentries : Table.Alike (fun value value' => unplaced value = unplaced value') _ _ :=
        Table.alike_iff_zip.2 ⟨hkeys, ih⟩
      rw [Value.unplaced, Value.unplaced, unplacedEntries_eq_map, unplacedEntries_eq_map]
      exact congrArg Value.hash
        (map_eq_of_forall₂ hentries fun entry entry' heq => Prod.ext heq.1 heq.2)
  | _ => rfl

theorem Store.Alike.unplaced_eq {store store' : Store}
    (h : store.Alike (.places host earlier) store') : store.unplaced = store'.unplaced := by
  apply Store.eq_of_views
  · rw [next_unplaced, next_unplaced, h.next]
  · intro id
    have hbindings := h.bindings_alike (fun _ => rfl) id trivial
    rw [bindings_unplaced, bindings_unplaced]
    exact map_eq_of_forall₂ hbindings fun _ _ hentry => Prod.ext hentry.1 hentry.2.unplaced_eq
  · intro id
    rw [outer?_unplaced, outer?_unplaced, h.outer id trivial]

/-! ## Machines -/

/-- What was written before does not matter to values. -/
theorem Value.Alike.later {value value' : Value} (h : value.Alike (.places host earlier) value')
    (later : List String) : value.Alike (.places host later) value' :=
  h.mono id id id

/-- When the first console is cleared, what was on it counts as written before. -/
theorem Machine.Alike.cleared {machine machine' : Machine}
    (h : machine.Alike (.places host earlier) machine') :
    { machine with console := .empty }.Alike
      (.places host (earlier ++ machine.console.texts.toList)) machine' where
  store :=
    { next := h.store.next
      fresh := h.store.fresh
      outer := h.store.outer
      closed := h.store.closed
      bindings := fun id hid =>
        (h.store.bindings id hid).imp fun _ _ hentry => ⟨hentry.1, hentry.2.later _⟩ }
  identities := h.identities
  console := by simpa [Correspondence.places, Console.empty] using h.console
  log := trivial

/-- Logs do not matter. -/
theorem Machine.Alike.relogged {machine machine' : Machine}
    (h : machine.Alike (.places host earlier) machine') (log log' : TraceLog) :
    { machine with log }.Alike (.places host earlier) { machine' with log := log' } :=
  ⟨h.store, h.identities, h.console, trivial⟩

theorem Machine.Alike.trace_left {machine machine' : Machine}
    (h : machine.Alike (.places host earlier) machine') (event : TraceEvent) :
    (machine.trace host.traceLevel event).Alike (.places host earlier) machine' := by
  rw [Machine.trace_eq]
  exact h.relogged _ _

theorem Machine.Alike.trace_right {machine machine' : Machine}
    (h : machine.Alike (.places host earlier) machine') (event : TraceEvent) :
    machine.Alike (.places host earlier) (machine'.trace host.traceLevel event) := by
  rw [Machine.trace_eq]
  exact h.relogged _ _

end MonkeyLanguage
