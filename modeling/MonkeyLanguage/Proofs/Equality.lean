-- SUMMARY: Equality of values is an equivalence that keys, operators and look-ups respect.
import Mathlib.Data.List.Perm.Subperm
import MonkeyLanguage.Proofs.Run.Hashes

/-!
# Equality

The comparison of two hashes goes through the entries of one of them and looks each key up in the
other. What it decides can be told without that: there is one rule for each type of value, and the
rule for hashes says the same of both sides. Comparison and rules agree because a key is in a hash
once only. From the rules, equality is an equivalence, and types, keys, operators and look-ups do
not tell equal values apart.

The printed form does: hashes that are equal may print their entries in different orders.
-/

namespace MonkeyLanguage

/-! ## Tables that map the same keys -/

namespace Table

variable {κ ν : Type} {related : ν → ν → Prop} {table table' : List (κ × ν)}

/-- Two tables have the same keys, and related values under each of them. Where the entries stand
does not matter. -/
structure SameMapping (related : ν → ν → Prop) (table table' : List (κ × ν)) : Prop where
  keys : ∀ key, key ∈ Table.keys table ↔ key ∈ Table.keys table'
  values : ∀ key value value', (key, value) ∈ table → (key, value') ∈ table' → related value value'

theorem exists_of_mem_keys {key : κ} (h : key ∈ keys table) : ∃ value, (key, value) ∈ table := by
  obtain ⟨⟨_, value⟩, hentry, rfl⟩ := List.mem_map.1 h
  exact ⟨value, hentry⟩

/-- Keys that are there once only and are all in a table of the same length are all its keys. -/
theorem perm_keys (h : (keys table).Nodup) (hlength : table.length = table'.length)
    (hsubset : keys table ⊆ keys table') : (keys table).Perm (keys table') := by
  refine (h.subperm hsubset).perm_of_length_le ?_
  rw [keys, keys, List.length_map, List.length_map, hlength]

variable [DecidableEq κ]

theorem value_unique (h : (keys table).Nodup) {key : κ} {value value' : ν}
    (hvalue : (key, value) ∈ table) (hvalue' : (key, value') ∈ table) : value = value' :=
  Option.some.inj ((find?_of_mem h hvalue).symm.trans (find?_of_mem h hvalue'))

theorem mem_of_find? {key : κ} {value : ν} (h : find? key table = some value) :
    (key, value) ∈ table := by
  induction table with
  | nil => cases h
  | cons entry rest ih =>
      rw [find?] at h
      split at h
      case isTrue hkey =>
        cases h
        rw [← hkey]
        exact List.mem_cons_self
      case isFalse => exact List.mem_cons_of_mem _ (ih h)

/-- To compare two tables it is enough to look the keys of one of them up in the other. -/
theorem sameMapping_iff (hkeys : (keys table).Nodup) (hkeys' : (keys table').Nodup) :
    SameMapping related table table' ↔
      table.length = table'.length ∧
        ∀ entry ∈ table, ∃ value, Table.find? entry.1 table' = some value ∧
          related entry.2 value := by
  constructor
  · intro h
    have hperm := (List.perm_ext_iff_of_nodup hkeys hkeys').2 h.keys
    refine ⟨by simpa [keys] using hperm.length_eq, fun entry hentry => ?_⟩
    obtain ⟨value, hvalue⟩ := exists_of_mem_keys ((h.keys entry.1).1 (mem_keys_of_mem hentry))
    exact ⟨value, find?_of_mem hkeys' hvalue, h.values entry.1 entry.2 value hentry hvalue⟩
  · rintro ⟨hlength, hfound⟩
    have hsubset : keys table ⊆ keys table' := fun key hkey => by
      obtain ⟨value, hentry⟩ := exists_of_mem_keys hkey
      obtain ⟨value', hvalue', -⟩ := hfound (key, value) hentry
      exact mem_keys_of_mem (mem_of_find? hvalue')
    refine ⟨fun key => (perm_keys hkeys hlength hsubset).mem_iff, ?_⟩
    intro key value value' hentry hentry'
    obtain ⟨other, hother, hrelated⟩ := hfound (key, value) hentry
    rw [value_unique hkeys' hentry' (mem_of_find? hother)]
    exact hrelated

theorem SameMapping.find? (h : SameMapping related table table') (hkeys : (Table.keys table).Nodup)
    (hkeys' : (Table.keys table').Nodup) (key : κ) :
    Option.Rel related (Table.find? key table) (Table.find? key table') := by
  by_cases hkey : key ∈ Table.keys table
  · obtain ⟨value, hentry⟩ := exists_of_mem_keys hkey
    obtain ⟨value', hentry'⟩ := exists_of_mem_keys ((h.keys key).1 hkey)
    rw [find?_of_mem hkeys hentry, find?_of_mem hkeys' hentry']
    exact .some (h.values key value value' hentry hentry')
  · rw [find?_eq_none hkey, find?_eq_none (mt (h.keys key).2 hkey)]
    exact .none

end Table

/-! ## The rules of equality -/

namespace Value

/-- Two values are the same, by a rule for each type. Errors are the same if they read the same,
functions if they are one and the same, arrays if they hold the same at each place, and hashes if
they hold the same under each key. -/
inductive Same : Value → Value → Prop where
  | integer (value : Int) : Same (.integer value) (.integer value)
  | string (text : String) : Same (.string text) (.string text)
  | boolean (value : Bool) : Same (.boolean value) (.boolean value)
  | null : Same .null .null
  | returned {value value' : Value} : Same value value' → Same (.returned value) (.returned value')
  | error {cause cause' : RuntimeError} :
      cause.message = cause'.message → Same (.error cause) (.error cause')
  | builtin (function : Builtin) : Same (.builtin function) (.builtin function)
  | closure (identity : Nat) {parameters parameters' : List Node} {body body' : Node}
      {scope scope' : ScopeId} :
      Same (.closure identity parameters body scope) (.closure identity parameters' body' scope')
  | array {elements elements' : List Value} :
      elements.length = elements'.length →
      (∀ pair ∈ elements.zip elements', Same pair.1 pair.2) →
      Same (.array elements) (.array elements')
  | hash {entries entries' : List (HashKey × Value)} :
      (∀ key, key ∈ Table.keys entries ↔ key ∈ Table.keys entries') →
      (∀ key value value', (key, value) ∈ entries → (key, value') ∈ entries' → Same value value') →
      Same (.hash entries) (.hash entries')

theorem same_array {elements elements' : List Value} (h : List.Forall₂ Same elements elements') :
    Same (.array elements) (.array elements') :=
  .array h.length_eq fun _ hpair => (List.forall₂_iff_zip.1 h).2 hpair

theorem forall₂_trans {α : Type} {related related' related'' : α → α → Prop}
    {items items' items'' : List α} (h : List.Forall₂ related items items')
    (h' : List.Forall₂ related' items' items'')
    (htrans : ∀ a b c, related a b → related' b c → related'' a c) :
    List.Forall₂ related'' items items'' := by
  induction h generalizing items'' with
  | nil =>
      cases h'
      exact .nil
  | cons hitem _ ih =>
      cases h' with
      | cons hitem' hrest' => exact .cons (htrans _ _ _ hitem hitem') (ih hrest')

variable {a b c : Value}

theorem WellKeyed.same_self (h : a.WellKeyed) : a.Same a := by
  induction h with
  | returned _ ih => exact .returned ih
  | error => exact .error rfl
  | array _ ih => exact same_array (List.forall₂_same.2 ih)
  | hash hkeys _ _ ih =>
      refine .hash (fun _ => Iff.rfl) fun key value value' hvalue hvalue' => ?_
      rw [← Table.value_unique hkeys hvalue hvalue']
      exact ih (key, value) hvalue
  | _ => constructor

theorem Same.symm (h : a.Same b) : b.Same a := by
  induction h with
  | returned _ ih => exact .returned ih
  | error hmessage => exact .error hmessage.symm
  | array hlength _ ih =>
      exact same_array (List.forall₂_iff_zip.2 ⟨hlength, fun hpair => ih _ hpair⟩).flip
  | hash hkeys _ ih =>
      exact .hash (fun key => (hkeys key).symm) fun key value value' hvalue hvalue' =>
        ih key value' value hvalue' hvalue
  | _ => constructor

theorem Same.trans (h : a.Same b) (h' : b.Same c) : a.Same c := by
  induction h generalizing c with
  | returned _ ih =>
      cases h' with
      | returned hvalue' => exact .returned (ih hvalue')
  | error hmessage =>
      cases h' with
      | error hmessage' => exact .error (hmessage.trans hmessage')
  | closure identity =>
      cases h' with
      | closure => exact .closure identity
  | array hlength _ ih =>
      cases h' with
      | array hlength' hzip' =>
          have hleft := List.forall₂_iff_zip.2 ⟨hlength, fun hpair => @ih _ hpair⟩
          have hright := List.forall₂_iff_zip.2 ⟨hlength', fun hpair => hzip' _ hpair⟩
          exact same_array (forall₂_trans hleft hright fun _ _ _ hsame hsame' => hsame hsame')
  | hash hkeys _ ih =>
      cases h' with
      | hash hkeys' hvalues' =>
          refine .hash (fun key => (hkeys key).trans (hkeys' key)) ?_
          intro key value value'' hvalue hvalue''
          -- A key of the outer two is a key of the hash in the middle.
          obtain ⟨value', hvalue'⟩ :=
            Table.exists_of_mem_keys ((hkeys key).1 (Table.mem_keys_of_mem hvalue))
          exact ih key value value' hvalue hvalue' (hvalues' key value' value'' hvalue' hvalue'')
  | _ => exact h'

/-! ## The comparison decides the rules -/

namespace WellKeyed

theorem of_returned {value : Value} (h : (Value.returned value).WellKeyed) : value.WellKeyed := by
  cases h with
  | returned hvalue => exact hvalue

theorem of_array {elements : List Value} (h : (Value.array elements).WellKeyed) :
    ∀ element ∈ elements, element.WellKeyed := by
  cases h with
  | array helements => exact helements

theorem of_hash {entries : List (HashKey × Value)} (h : (Value.hash entries).WellKeyed) :
    ∀ entry ∈ entries, entry.2.WellKeyed := by
  cases h with
  | hash _ _ hvalues => exact hvalues

theorem nodup_keys {entries : List (HashKey × Value)} (h : (Value.hash entries).WellKeyed) :
    (Table.keys entries).Nodup := by
  cases h with
  | hash hkeys _ _ => exact hkeys

end WellKeyed

theorem equals_hash_iff {entries entries' : List (HashKey × Value)}
    (hkeys : (Table.keys entries).Nodup) (hkeys' : (Table.keys entries').Nodup) :
    (hash entries).equals (hash entries') = true ↔
      Table.SameMapping (fun a b => a.equals b = true) entries entries' := by
  rw [equals, Bool.and_eq_true_iff, beq_iff_eq, containsAll_iff,
    Table.sameMapping_iff hkeys hkeys']

theorem WellKeyed.same_of_equals (ha : a.WellKeyed) (hb : b.WellKeyed) (h : a.equals b = true) :
    a.Same b := by
  -- Two values of different types compare as `false`, which leaves one case for each type.
  induction ha generalizing b with
  | integer n =>
      cases b with
      | integer m =>
          obtain rfl : n = m := eq_of_beq h
          exact .integer n
      | _ => cases h
  | string text =>
      cases b with
      | string text' =>
          obtain rfl : text = text' := eq_of_beq h
          exact .string text
      | _ => cases h
  | boolean value =>
      cases b with
      | boolean value' =>
          obtain rfl : value = value' := eq_of_beq h
          exact .boolean value
      | _ => cases h
  | null =>
      cases b with
      | null => exact .null
      | _ => cases h
  | returned _ ih =>
      cases b with
      | returned value' => exact .returned (ih hb.of_returned h)
      | _ => cases h
  | error cause =>
      cases b with
      | error cause' => exact .error (eq_of_beq h)
      | _ => cases h
  | builtin function =>
      cases b with
      | builtin function' =>
          obtain rfl : function = function' := eq_of_beq h
          exact .builtin function
      | _ => cases h
  | closure identity =>
      cases b with
      | closure identity' =>
          obtain rfl : identity = identity' := eq_of_beq h
          exact .closure identity
      | _ => cases h
  | array _ ih =>
      cases b with
      | array elements' =>
          obtain ⟨hlength, hzip⟩ := List.forall₂_iff_zip.1 (equalsAll_iff.1 h)
          refine .array hlength fun pair hpair => ?_
          obtain ⟨hmem, hmem'⟩ := List.of_mem_zip hpair
          exact ih pair.1 hmem (hb.of_array pair.2 hmem') (hzip hpair)
      | _ => cases h
  | hash hkeys _ _ ih =>
      cases b with
      | hash entries' =>
          obtain ⟨hsame, hequals⟩ := (equals_hash_iff hkeys hb.nodup_keys).1 h
          refine .hash hsame fun key value value' hvalue hvalue' => ?_
          have hkept : value'.WellKeyed := hb.of_hash (key, value') hvalue'
          exact ih (key, value) hvalue hkept (hequals key value value' hvalue hvalue')
      | _ => cases h

theorem Same.equals (h : a.Same b) (ha : a.WellKeyed) (hb : b.WellKeyed) : a.equals b = true := by
  induction h with
  | null => rfl
  | returned _ ih => exact ih ha.of_returned hb.of_returned
  | error hmessage => exact beq_iff_eq.2 hmessage
  | array hlength _ ih =>
      refine equalsAll_iff.2 (List.forall₂_iff_zip.2 ⟨hlength, fun hpair => ?_⟩)
      obtain ⟨hmem, hmem'⟩ := List.of_mem_zip hpair
      exact ih _ hpair (ha.of_array _ hmem) (hb.of_array _ hmem')
  | hash hsame _ ih =>
      refine (equals_hash_iff ha.nodup_keys hb.nodup_keys).2 ⟨hsame, ?_⟩
      intro key value value' hvalue hvalue'
      exact ih key value value' hvalue hvalue' (ha.of_hash _ hvalue) (hb.of_hash _ hvalue')
  | _ => exact beq_self_eq_true _

theorem WellKeyed.equals_iff_same (ha : a.WellKeyed) (hb : b.WellKeyed) :
    a.equals b = true ↔ a.Same b :=
  ⟨ha.same_of_equals hb, fun h => h.equals ha hb⟩

/-! ## What does not tell equal values apart -/

namespace Same

theorem type_eq (h : a.Same b) : a.type = b.type := by
  cases h <;> rfl

theorem hashKey?_eq (h : a.Same b) : a.hashKey? = b.hashKey? := by
  cases h <;> rfl

theorem isTruthy_eq (h : a.Same b) : a.isTruthy = b.isTruthy := by
  cases h <;> rfl

/-- An index counts by its type and its key. -/
theorem lookUp (h : a.Same b) (ha : a.WellKeyed) (hb : b.WellKeyed) {index index' : Value}
    (htype : index.type = index'.type) (hkey : index.hashKey? = index'.hashKey?) :
    (a.lookUp index).Same (b.lookUp index') := by
  cases h with
  | array hlength hzip =>
      cases index with
      | integer place =>
          obtain rfl : .integer place = index' := eq_of_hashKey?_eq_some rfl hkey.symm
          have helements := List.forall₂_iff_zip.2 ⟨hlength, fun hpair => hzip _ hpair⟩
          exact getD_of_rel (element?_rel helements place) .null
      | _ => cases index' <;> first | exact .error rfl | cases htype
  | hash hsame hvalues =>
      rw [Value.lookUp, Value.lookUp, ← hkey, ← htype]
      cases index.hashKey? with
      | none => exact .error rfl
      | some key =>
          have hmapping : Table.SameMapping Same _ _ := ⟨hsame, hvalues⟩
          exact getD_of_rel (hmapping.find? ha.nodup_keys hb.nodup_keys key) .null
  | _ => exact .error rfl

end Same

theorem equals_of_hashKey?_eq_some {key : HashKey} (ha : a.hashKey? = some key)
    (hb : b.hashKey? = some key) : a.equals b = true := by
  obtain rfl := eq_of_hashKey?_eq_some ha hb
  cases a <;> cases ha <;> exact beq_self_eq_true _

theorem WellKeyed.equals_self (h : a.WellKeyed) : a.equals a = true :=
  h.same_self.equals h h

theorem wellKeyed_ofEntries {entries : List (HashKey × Value)}
    (h : ∀ entry ∈ entries, entry.2.WellKeyed) : (hash (Table.ofEntries entries)).WellKeyed := by
  refine .hash (Table.nodup_keys_ofEntries entries) (fun entry _ => hashKey?_toValue entry.1) ?_
  intro entry hentry
  obtain ⟨before, after, rfl, -⟩ := Table.mem_ofEntries.1 hentry
  exact h entry (List.mem_append_right before List.mem_cons_self)

/-- Entries with keys of their own make equal hashes, in whatever order they are written. -/
theorem equals_ofEntries_of_perm {entries entries' : List (HashKey × Value)}
    (hvalues : ∀ entry ∈ entries, entry.2.WellKeyed) (hkeys : (Table.keys entries).Nodup)
    (h : entries.Perm entries') :
    (hash (Table.ofEntries entries)).equals (hash (Table.ofEntries entries')) = true := by
  have hsame : (Table.keys entries).Perm (Table.keys entries') := h.map Prod.fst
  have hkeys' : (Table.keys entries').Nodup := hsame.nodup_iff.1 hkeys
  rw [Table.ofEntries_eq_self hkeys, Table.ofEntries_eq_self hkeys', equals_hash_iff hkeys hkeys']
  refine ⟨fun _ => hsame.mem_iff, fun key value value' hvalue hvalue' => ?_⟩
  rw [Table.value_unique hkeys (h.mem_iff.2 hvalue') hvalue]
  exact (hvalues (key, value) hvalue).equals_self

/-- A function that is being made is none of the values that are around, whatever their code. -/
theorem equals_made {host : Host} {call : Call} {scope : ScopeId} {token : Token}
    {parameters : List Node} {body : Node} {machine final : Machine} {made value : Value}
    (hmade : evaluate host call scope (.function token parameters body) machine = .ok made final)
    (hvalue : value.Belongs machine) : made.equals value = false := by
  cases hmade
  cases hvalue with
  | closure hidentity _ => exact beq_false_of_ne (Nat.ne_of_gt hidentity)
  | _ => rfl

/-- Two values have one type and make one key, operators give the same results for them, and
look-ups find equal values in them. Of the other operand, and of the index, only the type and the
key have to be the same. -/
structure Indistinct (a b : Value) : Prop where
  type : a.type = b.type
  hashKey : a.hashKey? = b.hashKey?
  prefixed : ∀ operator, a.prefixed operator = b.prefixed operator
  binary : ∀ other other' : Value, other.type = other'.type → other.hashKey? = other'.hashKey? →
    ∀ operator limit, a.binary operator other limit = b.binary operator other' limit
  lookUp : ∀ index index' : Value, index.type = index'.type → index.hashKey? = index'.hashKey? →
    (a.lookUp index).equals (b.lookUp index') = true

theorem indistinct_of_equals (ha : a.WellKeyed) (hb : b.WellKeyed) (h : a.equals b = true) :
    a.Indistinct b := by
  have hsame := ha.same_of_equals hb h
  refine ⟨hsame.type_eq, hsame.hashKey?_eq,
    prefixed_congr hsame.type_eq hsame.hashKey?_eq hsame.isTruthy_eq, ?_, ?_⟩
  · intro other other' htype hkey
    exact binary_congr hsame.type_eq hsame.hashKey?_eq htype hkey
  · intro index index' htype hkey
    exact (hsame.lookUp ha hb htype hkey).equals (ha.lookUp index) (hb.lookUp index')

/-- Values in whose hashes no key is twice, as in all hashes that are made by writing entries, are
compared by the rules, to whatever depth they are nested. On them, equality is an equivalence, and
equal values are indistinct. Values that make the same key are equal. Two hashes are equal exactly
if they have the same keys and equal values under each of them, so the order in which the entries
were written makes no difference. A function that is made anew equals no value that was there
before. -/
theorem equals_equivalence :
    Equivalence (fun a b : {value : Value // value.WellKeyed} => a.1.equals b.1 = true) ∧
    (∀ a b : Value, a.WellKeyed → b.WellKeyed →
      (a.equals b = true ↔ a.Same b) ∧ (a.equals b = true → a.Indistinct b)) ∧
    (∀ (a b : Value) (key : HashKey), a.hashKey? = some key → b.hashKey? = some key →
      a.equals b = true) ∧
    (∀ entries entries', (hash entries).WellKeyed → (hash entries').WellKeyed →
      ((hash entries).equals (hash entries') = true ↔
        Table.SameMapping (fun a b => a.equals b = true) entries entries')) ∧
    (∀ entries, (∀ entry ∈ entries, entry.2.WellKeyed) →
      (hash (Table.ofEntries entries)).WellKeyed ∧
        ∀ entries', (Table.keys entries).Nodup → entries.Perm entries' →
          (hash (Table.ofEntries entries)).equals (hash (Table.ofEntries entries')) = true) ∧
    ∀ host call scope token parameters body machine made final,
      evaluate host call scope (.function token parameters body) machine = .ok made final →
      ∀ value : Value, value.Belongs machine → made.equals value = false := by
  refine ⟨⟨?refl, ?symm, ?trans⟩, ?rules, ?keys, ?hashes, ?order, ?functions⟩
  case refl =>
    rintro ⟨a, ha⟩
    exact ha.equals_self
  case symm =>
    rintro ⟨a, ha⟩ ⟨b, hb⟩ h
    exact (ha.same_of_equals hb h).symm.equals hb ha
  case trans =>
    rintro ⟨a, ha⟩ ⟨b, hb⟩ ⟨c, hc⟩ h h'
    exact ((ha.same_of_equals hb h).trans (hb.same_of_equals hc h')).equals ha hc
  case rules =>
    intro a b ha hb
    exact ⟨ha.equals_iff_same hb, indistinct_of_equals ha hb⟩
  case keys =>
    intro a b key ha hb
    exact equals_of_hashKey?_eq_some ha hb
  case hashes =>
    intro entries entries' h h'
    exact equals_hash_iff h.nodup_keys h'.nodup_keys
  case order =>
    intro entries hvalues
    exact ⟨wellKeyed_ofEntries hvalues, fun _ => equals_ofEntries_of_perm hvalues⟩
  case functions =>
    intro host call scope token parameters body machine made final hmade value hvalue
    exact equals_made hmade hvalue

/-- Entries with a hash inside an array. -/
def nestedEntries : List (HashKey × Value) :=
  [(.integer 1, .array [.null, .hash [(.boolean true, .null), (.string "a", .builtin .length)]]),
    (.string "1", .returned (.error .divisionByZero))]

/-- The same entries, written in the opposite order on both levels. -/
def reversedEntries : List (HashKey × Value) :=
  [(.string "1", .returned (.error .divisionByZero)),
    (.integer 1, .array [.null, .hash [(.string "a", .builtin .length), (.boolean true, .null)]])]

/-- The two hashes are equal both ways around, and indistinct, down to the array under `1`. A hash
with `true` in the place of `1` is another one. Of two functions with the same code, the one that is
made later differs from the first. -/
theorem equals_equivalence_nested :
    (hash nestedEntries).WellKeyed ∧ (hash reversedEntries).WellKeyed ∧
    (hash nestedEntries).equals (hash reversedEntries) = true ∧
    (hash reversedEntries).equals (hash nestedEntries) = true ∧
    ((hash nestedEntries).lookUp (.integer 1)).equals
      ((hash reversedEntries).lookUp (.integer 1)) = true ∧
    (hash [(.integer 1, .null)]).equals (hash [(.boolean true, .null)]) = false ∧
    (closure 1 [] .missing globalScope).equals (closure 0 [] .missing globalScope) = false := by
  obtain ⟨hequivalence, hrules, -, hhashes, hwritten, hmade⟩ := equals_equivalence
  have hinner : (hash [(.boolean true, .null), (.string "a", .builtin .length)]).WellKeyed :=
    (hwritten [(.boolean true, .null), (.string "a", .builtin .length)]
      (by simp [WellKeyed.null, WellKeyed.builtin])).1
  have hinner' : (hash [(.string "a", .builtin .length), (.boolean true, .null)]).WellKeyed :=
    (hwritten [(.string "a", .builtin .length), (.boolean true, .null)]
      (by simp [WellKeyed.null, WellKeyed.builtin])).1
  have hsignal : (returned (error .divisionByZero)).WellKeyed := .returned (.error _)
  have hnested : (hash nestedEntries).WellKeyed :=
    (hwritten nestedEntries (by simp [nestedEntries, WellKeyed.array, WellKeyed.null, *])).1
  have hreversed : (hash reversedEntries).WellKeyed :=
    (hwritten reversedEntries (by simp [reversedEntries, WellKeyed.array, WellKeyed.null, *])).1
  have hequal : (hash nestedEntries).equals (hash reversedEntries) = true := by decide
  refine ⟨hnested, hreversed, hequal, ?_, ?_, ?_, ?_⟩
  · exact @hequivalence.symm ⟨_, hnested⟩ ⟨_, hreversed⟩ hequal
  · exact ((hrules _ _ hnested hreversed).2 hequal).lookUp (.integer 1) (.integer 1) rfl rfl
  · have hsmall : ∀ key : HashKey, (hash [(key, .null)]).WellKeyed := fun key =>
      (hwritten [(key, .null)] (List.forall_mem_singleton.2 .null)).1
    rw [Bool.eq_false_iff]
    intro h
    have hsame := (hhashes _ _ (hsmall (.integer 1)) (hsmall (.boolean true))).1 h
    exact absurd ((hsame.keys (.integer 1)).1 List.mem_cons_self) (by decide)
  · exact hmade {} (apply {} 0) globalScope default [] .missing
      { Machine.initial with closures := 1 } _ _ rfl _ (.closure Nat.zero_lt_one (by decide))

end Value

end MonkeyLanguage
