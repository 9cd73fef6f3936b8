-- SUMMARY: New numbers for scopes and closures, and values that hold them.
import Mathlib.Data.List.Nodup
import Mathlib.Order.Monotone.Basic
import MonkeyLanguage.Proofs.Alike.Value
import MonkeyLanguage.Proofs.Scoping.Store
import MonkeyLanguage.Value.Equality

/-!
# Renamed values

A run knows scopes and closures by number, and it hands the numbers out in the order in which it
makes them. When the same work is done once more, there are more scopes and closures already, so
what is made then has other numbers. A renaming says which. Operators, look-ups, built-in functions
and the printable form do not depend on the numbers.

A value belongs to a machine if the machine has the scopes and the closures that are in the value.
-/

namespace MonkeyLanguage

/-- New numbers for scopes and closures. Scopes keep their order. -/
structure Renaming where
  scope : ScopeId → ScopeId
  closure : Nat → Nat
  increasing : StrictMono scope

/-- Another machine has all scopes and all closures that a machine has, judged by their numbers. -/
structure Machine.Precedes (before after : Machine) : Prop where
  scopes : before.store.next ≤ after.store.next
  closures : before.closures ≤ after.closures

/-- The renaming changes nothing that was made on the machine. -/
structure Renaming.Fixes (r : Renaming) (machine : Machine) : Prop where
  scopes : ∀ id < machine.store.next, r.scope id = id
  closures : ∀ id < machine.closures, r.closure id = id

namespace Value

variable (r : Renaming)

mutual

/-- A value with other numbers for the scopes and closures in it. -/
def renamed : Value → Value
  | integer value => .integer value
  | string text => .string text
  | boolean value => .boolean value
  | null => .null
  | returned value => .returned value.renamed
  | error cause => .error cause
  | builtin function => .builtin function
  | closure identity parameters body scope =>
    .closure (r.closure identity) parameters body (r.scope scope)
  | array elements => .array (renamedAll elements)
  | hash entries => .hash (renamedEntries entries)

/-- Several values with other numbers for the scopes and closures in them. -/
def renamedAll : List Value → List Value
  | [] => []
  | value :: rest => value.renamed :: renamedAll rest

/-- The entries of a hash with other numbers for the scopes and closures in them. -/
def renamedEntries : List (HashKey × Value) → List (HashKey × Value)
  | [] => []
  | (key, value) :: rest => (key, value.renamed) :: renamedEntries rest

end

end Value

/-- The value is of the machine: the functions in it are closures that were made on the machine, in
scopes that the machine has. In its hashes, each key has one entry only. -/
inductive Value.Belongs (machine : Machine) : Value → Prop where
  | integer (value : Int) : Belongs machine (.integer value)
  | string (text : String) : Belongs machine (.string text)
  | boolean (value : Bool) : Belongs machine (.boolean value)
  | null : Belongs machine .null
  | returned {value : Value} : Belongs machine value → Belongs machine (.returned value)
  | error (cause : RuntimeError) : Belongs machine (.error cause)
  | builtin (function : Builtin) : Belongs machine (.builtin function)
  | closure {identity : Nat} {parameters : List Node} {body : Node} {scope : ScopeId} :
      identity < machine.closures → scope < machine.store.next →
      Belongs machine (.closure identity parameters body scope)
  | array {elements : List Value} :
      (∀ element ∈ elements, Belongs machine element) → Belongs machine (.array elements)
  | hash {entries : List (HashKey × Value)} :
      (Table.keys entries).Nodup → (∀ entry ∈ entries, Belongs machine entry.2) →
      Belongs machine (.hash entries)

/-! ## Tables -/

namespace Table

variable {κ ν μ : Type} (f : ν → μ)

/-- A table with something else made of each value. -/
def mapValues (table : List (κ × ν)) : List (κ × μ) :=
  table.map fun entry => (entry.1, f entry.2)

theorem mapValues_eq_self {f : ν → ν} {table : List (κ × ν)}
    (h : ∀ entry ∈ table, f entry.2 = entry.2) : mapValues f table = table := by
  have hentries : ∀ entry ∈ table, (entry.1, f entry.2) = entry := fun entry hentry =>
    congrArg (entry.1, ·) (h entry hentry)
  rw [mapValues, List.map_congr_left hentries, List.map_id']

theorem mapValues_zip (keys : List κ) (values : List ν) :
    mapValues f (keys.zip values) = keys.zip (values.map f) := by
  rw [mapValues, List.zip_map_right]
  rfl

variable [DecidableEq κ]

theorem insert_mapValues (key : κ) (value : ν) (table : List (κ × ν)) :
    insert key (f value) (mapValues f table) = mapValues f (insert key value table) := by
  induction table with
  | nil => rfl
  | cons entry rest ih =>
      change insert key (f value) ((entry.1, f entry.2) :: mapValues f rest) = _
      rw [insert, insert, ih]
      split <;> rfl

theorem find?_mapValues (key : κ) (table : List (κ × ν)) :
    find? key (mapValues f table) = (find? key table).map f := by
  induction table with
  | nil => rfl
  | cons entry rest ih =>
      change find? key ((entry.1, f entry.2) :: mapValues f rest) = _
      rw [find?, find?, ih]
      split <;> rfl

theorem nodup_keys_insert {table : List (κ × ν)} (h : (keys table).Nodup) (key : κ) (value : ν) :
    (keys (insert key value table)).Nodup := by
  induction table with
  | nil => exact List.nodup_cons.2 ⟨List.not_mem_nil, .nil⟩
  | cons entry rest ih =>
      obtain ⟨hentry, hrest⟩ := List.nodup_cons.1 h
      rw [insert]
      split
      case isTrue hsame =>
        rw [hsame] at hentry
        exact List.nodup_cons.2 ⟨hentry, hrest⟩
      case isFalse hother =>
        refine List.nodup_cons.2 ⟨fun hmem => ?_, ih hrest⟩
        exact (mem_keys_insert.1 hmem).elim hother hentry

theorem find?_of_mem {table : List (κ × ν)} (h : (keys table).Nodup) {entry : κ × ν}
    (hentry : entry ∈ table) : find? entry.1 table = some entry.2 := by
  induction table with
  | nil => cases hentry
  | cons first rest ih =>
      obtain ⟨hfirst, hrest⟩ := List.nodup_cons.1 h
      rw [find?]
      rcases List.mem_cons.1 hentry with rfl | hmem
      · exact if_pos rfl
      · have hne : first.1 ≠ entry.1 := fun hsame => hfirst (hsame ▸ List.mem_map_of_mem hmem)
        rw [if_neg hne]
        exact ih hrest hmem

end Table

namespace Value

section

variable (r : Renaming)

theorem renamedAll_eq_map (values : List Value) : renamedAll r values = values.map (renamed r) := by
  induction values with
  | nil => rfl
  | cons value rest ih => rw [renamedAll, ih, List.map_cons]

theorem renamedEntries_eq (entries : List (HashKey × Value)) :
    renamedEntries r entries = Table.mapValues (renamed r) entries := by
  induction entries with
  | nil => rfl
  | cons entry rest ih =>
      rw [renamedEntries, ih]
      rfl

theorem renamed_array (elements : List Value) :
    (array elements).renamed r = .array (elements.map (renamed r)) := by
  rw [renamed, renamedAll_eq_map]

theorem renamed_hash (entries : List (HashKey × Value)) :
    (hash entries).renamed r = .hash (Table.mapValues (renamed r) entries) := by
  rw [renamed, renamedEntries_eq]

/-! ## What a renaming keeps -/

@[simp] theorem type_renamed (value : Value) : (value.renamed r).type = value.type := by
  cases value <;> rfl

@[simp] theorem isError_renamed (value : Value) : (value.renamed r).isError = value.isError := by
  cases value <;> rfl

@[simp] theorem isSignal_renamed (value : Value) : (value.renamed r).isSignal = value.isSignal := by
  cases value <;> rfl

@[simp] theorem isTruthy_renamed (value : Value) : (value.renamed r).isTruthy = value.isTruthy := by
  cases value <;> rfl

@[simp] theorem hashKey?_renamed (value : Value) : (value.renamed r).hashKey? = value.hashKey? := by
  cases value <;> rfl

theorem received_renamed (value : Value) :
    (value.renamed r).received = value.received.renamed r := by
  cases value <;> rfl

variable {r}

theorem Scalar.renamed_eq {value : Value} (h : value.Scalar) : value.renamed r = value := by
  cases h <;> rfl

variable (r)

mutual

@[simp] theorem inspect_renamed (value : Value) : (value.renamed r).inspect = value.inspect := by
  cases value with
  | returned value => exact inspect_renamed value
  | array elements => rw [renamed, inspect, inspect, inspectAll_renamed elements]
  | hash entries => rw [renamed, inspect, inspect, inspectEntries_renamed entries]
  | _ => rfl
termination_by structural value

theorem inspectAll_renamed (values : List Value) :
    inspectAll (renamedAll r values) = inspectAll values := by
  cases values with
  | nil => rfl
  | cons value rest =>
      rw [renamedAll, inspectAll, inspectAll, inspect_renamed value, inspectAll_renamed rest]
termination_by structural values

theorem inspectEntries_renamed (entries : List (HashKey × Value)) :
    inspectEntries (renamedEntries r entries) = inspectEntries entries := by
  match entries with
  | [] => rfl
  | (key, value) :: rest =>
      rw [renamedEntries, inspectEntries, inspectEntries, inspect_renamed value,
        inspectEntries_renamed rest]
termination_by structural entries

end

/-! ## Operators, look-ups and built-in functions -/

theorem prefixed_renamed (operator : String) (right : Value) :
    (right.renamed r).prefixed operator = (right.prefixed operator).renamed r := by
  rw [(scalar_prefixed operator right).renamed_eq]
  exact prefixed_congr (type_renamed r right) (hashKey?_renamed r right) (isTruthy_renamed r right)
    operator

theorem binary_renamed (operator : String) (left right : Value) (limit : Nat) :
    (left.renamed r).binary operator (right.renamed r) limit =
      (left.binary operator right limit).renamed r := by
  rw [(scalar_binary operator left right limit).renamed_eq]
  exact binary_congr (type_renamed r left) (hashKey?_renamed r left) (type_renamed r right)
    (hashKey?_renamed r right) operator limit

theorem element?_renamed (elements : List Value) (place : Int) :
    element? (elements.map (renamed r)) place = (element? elements place).map (renamed r) := by
  rw [element?, element?, List.getElem?_map]
  split <;> rfl

theorem getD_renamed (found : Option Value) :
    (found.map (renamed r)).getD .null = (found.getD .null).renamed r := by
  cases found <;> rfl

theorem lookUp_renamed (target key : Value) :
    (target.renamed r).lookUp (key.renamed r) = (target.lookUp key).renamed r := by
  cases target with
  | array elements =>
      cases key with
      | integer place =>
          rw [renamed_array, renamed, lookUp, lookUp, element?_renamed, getD_renamed]
      | _ => rfl
  | hash entries =>
      rw [renamed_hash, lookUp, lookUp, hashKey?_renamed]
      cases key.hashKey? with
      | none =>
          rw [type_renamed]
          rfl
      | some hashKey =>
          change (Table.find? hashKey _).getD _ = ((Table.find? hashKey entries).getD _).renamed r
          rw [Table.find?_mapValues, getD_renamed]
  | _ => rfl

theorem map_inspect_renamed (values : List Value) :
    (values.map (renamed r)).map inspect = values.map inspect := by
  rw [List.map_map]
  exact List.map_congr_left fun value _ => inspect_renamed r value

theorem runLength_renamed (arguments : List Value) :
    Builtin.runLength (arguments.map (renamed r)) = Builtin.runLength arguments := by
  match arguments with
  | [] => rfl
  | [argument] =>
      cases argument with
      | array elements =>
          rw [List.map_singleton, renamed_array, Builtin.runLength, Builtin.runLength,
            List.length_map]
      | _ => rfl
  | first :: second :: rest =>
      rw [List.map_cons, List.map_cons, runLength_cons_cons, runLength_cons_cons, List.length_cons,
        List.length_cons, List.length_map, List.length_cons, List.length_cons]

theorem run_renamed (builtin : Builtin) (arguments : List Value) (console : Console) :
    builtin.run (arguments.map (renamed r)) console = builtin.run arguments console := by
  have htexts := map_inspect_renamed r arguments
  cases builtin with
  | length => exact congrArg (·, console) (runLength_renamed r arguments)
  | printLine =>
      cases arguments with
      | nil => rfl
      | cons first rest =>
          simp only [Builtin.run, Builtin.runPrintLine]
          exact congrArg (fun texts => (null, console.printLine texts)) htexts
  | printFormatted =>
      cases arguments with
      | nil => rfl
      | cons format rest =>
          obtain ⟨hformat, hrest⟩ := List.cons.inj htexts
          simp only [List.map_cons, Builtin.run, Builtin.runPrintFormatted, hformat, hrest,
            List.length_map]

end

/-! ## Values of a machine -/

variable {machine machine' : Machine} {value : Value}

theorem Scalar.belongs (h : value.Scalar) : value.Belongs machine := by
  cases h <;> constructor

theorem Belongs.mono (h : value.Belongs machine) (hprecedes : machine.Precedes machine') :
    value.Belongs machine' := by
  induction h with
  | returned _ ih => exact .returned ih
  | closure hidentity hscope =>
      exact .closure (Nat.lt_of_lt_of_le hidentity hprecedes.closures)
        (Nat.lt_of_lt_of_le hscope hprecedes.scopes)
  | array _ ih => exact .array ih
  | hash hkeys _ ih => exact .hash hkeys ih
  | _ => constructor

theorem Belongs.received (h : value.Belongs machine) : value.received.Belongs machine := by
  cases h with
  | returned hvalue => exact hvalue
  | closure hidentity hscope => exact .closure hidentity hscope
  | array helements => exact .array helements
  | hash hkeys hentries => exact .hash hkeys hentries
  | _ => constructor

theorem Belongs.lookUp {target : Value} (h : target.Belongs machine) (key : Value) :
    (target.lookUp key).Belongs machine := by
  apply Value.lookUp_of_contents .null .error
  intro value hvalue
  cases h with
  | array helements => exact helements value hvalue
  | hash _ hentries => exact List.forall_mem_map.2 hentries value hvalue
  | _ => cases hvalue

theorem Belongs.renamed_eq (h : value.Belongs machine) {r : Renaming} (hr : r.Fixes machine) :
    value.renamed r = value := by
  induction h with
  | returned _ ih => rw [renamed, ih]
  | closure hidentity hscope => rw [renamed, hr.closures _ hidentity, hr.scopes _ hscope]
  | array _ ih => rw [renamed_array, List.map_congr_left ih, List.map_id']
  | hash _ _ ih => rw [renamed_hash, Table.mapValues_eq_self ih]
  | _ => rfl

/-! ## Values that equal themselves -/

theorem equalsAll_iff {values values' : List Value} :
    equalsAll values values' = true ↔
      List.Forall₂ (fun value value' => value.equals value' = true) values values' := by
  induction values generalizing values' with
  | nil => cases values' <;> simp [equalsAll]
  | cons value rest ih =>
      cases values' with
      | nil => simp [equalsAll]
      | cons value' rest' => rw [equalsAll, Bool.and_eq_true_iff, ih, List.forall₂_cons]

theorem containsAll_iff {entries table : List (HashKey × Value)} :
    containsAll entries table = true ↔
      ∀ entry ∈ entries, ∃ value, Table.find? entry.1 table = some value ∧
        entry.2.equals value = true := by
  induction entries with
  | nil => simp [containsAll]
  | cons entry rest ih =>
      rw [containsAll, Bool.and_eq_true_iff, ih, List.forall_mem_cons]
      cases Table.find? entry.1 table <;> simp

/-- Each value of a machine equals itself. -/
theorem Belongs.equals_self (h : value.Belongs machine) : value.equals value = true := by
  induction h with
  | returned _ ih => exact ih
  | array _ ih => exact equalsAll_iff.2 (List.forall₂_same.2 ih)
  | hash hkeys _ ih =>
      rw [equals, beq_self_eq_true, Bool.true_and, containsAll_iff]
      exact fun entry hentry => ⟨entry.2, Table.find?_of_mem hkeys hentry, ih entry hentry⟩
  | _ => simp [equals]

end Value

end MonkeyLanguage
