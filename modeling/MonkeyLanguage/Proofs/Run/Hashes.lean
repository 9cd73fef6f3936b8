-- SUMMARY: Hashes: the last pair with a key wins, keys of different types stay apart.
import Mathlib.Data.List.Induction
import MonkeyLanguage.Proofs.Renaming.Repetition
import MonkeyLanguage.Proofs.Run.Standard

/-!
# Hashes

A hash literal writes its pairs into a table one after the other. What the table says in the end
can be told without that order of events: there is one entry for each key, it is the last pair with
that key, and the entries stand in the order in which their keys came up first. Keys are the same if
they have the same type and the language itself finds them equal.

The entries of a table keep the key only, not the value that was the key, because each key stands
for exactly one value.
-/

namespace MonkeyLanguage

/-! ## Tables made by writing entries -/

namespace Table

variable {κ ν : Type}

/-- Of all entries with its key, this is the last one. -/
def IsLast (entry : κ × ν) (entries : List (κ × ν)) : Prop :=
  ∃ before after, entries = before ++ entry :: after ∧ entry.1 ∉ keys after

theorem keys_append (before after : List (κ × ν)) :
    keys (before ++ after) = keys before ++ keys after :=
  List.map_append

theorem mem_keys_of_mem {entry : κ × ν} {entries : List (κ × ν)} (h : entry ∈ entries) :
    entry.1 ∈ keys entries :=
  List.mem_map_of_mem h

theorem not_isLast_nil (entry : κ × ν) : ¬ IsLast entry [] := by
  rintro ⟨before, after, hentries, -⟩
  exact List.append_ne_nil_of_right_ne_nil before (List.cons_ne_nil entry after) hentries.symm

theorem isLast_concat {entry last : κ × ν} {before : List (κ × ν)} :
    IsLast entry (before ++ [last]) ↔ entry = last ∨ entry.1 ≠ last.1 ∧ IsLast entry before := by
  constructor
  · rintro ⟨first, after, hentries, hafter⟩
    rcases List.eq_nil_or_concat' after with rfl | ⟨later, final, rfl⟩
    · obtain ⟨-, hlast⟩ := List.append_inj' hentries rfl
      exact .inl (List.singleton_inj.1 hlast.symm)
    · rw [← List.cons_append, ← List.append_assoc] at hentries
      obtain ⟨rfl, hlast⟩ := List.append_inj' hentries rfl
      obtain rfl := List.singleton_inj.1 hlast
      rw [keys_append, List.mem_append, not_or] at hafter
      exact .inr ⟨fun hsame => hafter.2 (List.mem_singleton.2 hsame), first, later, rfl, hafter.1⟩
  · rintro (rfl | ⟨hother, first, after, rfl, hafter⟩)
    · exact ⟨before, [], rfl, List.not_mem_nil⟩
    · refine ⟨first, after ++ [last], List.append_assoc .., ?_⟩
      rw [keys_append, List.mem_append, not_or]
      exact ⟨hafter, fun hsame => hother (List.mem_singleton.1 hsame)⟩

variable [DecidableEq κ]

theorem find?_eq_none {key : κ} {table : List (κ × ν)} (h : key ∉ keys table) :
    find? key table = none := by
  induction table with
  | nil => rfl
  | cons entry rest ih =>
      obtain ⟨hentry, hrest⟩ := not_or.1 (mt List.mem_cons.2 h)
      rw [find?, if_neg (Ne.symm hentry), ih hrest]

/-- Writing a key that is there changes no key, and a new key goes to the end. -/
theorem keys_insert_eq (key : κ) (value : ν) (table : List (κ × ν)) :
    keys (insert key value table) =
      if key ∈ keys table then keys table else keys table ++ [key] := by
  induction table with
  | nil => rfl
  | cons entry rest ih =>
      have hmem : key ∈ keys (entry :: rest) ↔ key = entry.1 ∨ key ∈ keys rest := List.mem_cons
      by_cases hsame : entry.1 = key
      · rw [insert, if_pos hsame, if_pos (hmem.2 (.inl hsame.symm)), ← hsame]
        rfl
      · rw [insert, if_neg hsame, if_congr (hmem.trans (or_iff_right (Ne.symm hsame))) rfl rfl]
        change entry.1 :: keys (insert key value rest) = _
        rw [ih]
        split <;> rfl

/-- Of the entries of a table, writing a key changes the one with that key. -/
theorem mem_insert {table : List (κ × ν)} (h : (keys table).Nodup) {key : κ} {value : ν}
    {entry : κ × ν} :
    entry ∈ insert key value table ↔ entry = (key, value) ∨ entry.1 ≠ key ∧ entry ∈ table := by
  induction table with
  | nil => simp [insert]
  | cons first rest ih =>
      obtain ⟨hfirst, hrest⟩ := List.nodup_cons.1 h
      rw [insert]
      split
      case isTrue hsame =>
        rw [List.mem_cons, List.mem_cons]
        refine or_congr_right ⟨fun hmem => ⟨?_, .inr hmem⟩, ?_⟩
        · rintro hkey
          exact hfirst (hsame.trans hkey.symm ▸ mem_keys_of_mem hmem)
        · rintro ⟨hkey, rfl | hmem⟩
          · exact absurd hsame hkey
          · exact hmem
      case isFalse hother =>
        rw [List.mem_cons, List.mem_cons, ih hrest]
        constructor
        · rintro (rfl | hwritten | ⟨hkey, hmem⟩)
          · exact .inr ⟨hother, .inl rfl⟩
          · exact .inl hwritten
          · exact .inr ⟨hkey, .inr hmem⟩
        · rintro (hwritten | ⟨hkey, rfl | hmem⟩)
          · exact .inr (.inl hwritten)
          · exact .inl rfl
          · exact .inr (.inr ⟨hkey, hmem⟩)

theorem ofEntries_concat (before : List (κ × ν)) (last : κ × ν) :
    ofEntries (before ++ [last]) = insert last.1 last.2 (ofEntries before) :=
  List.foldl_concat ..

theorem insert_of_not_mem {key : κ} {table : List (κ × ν)} (h : key ∉ keys table) (value : ν) :
    insert key value table = table ++ [(key, value)] := by
  induction table with
  | nil => rfl
  | cons entry rest ih =>
      obtain ⟨hentry, hrest⟩ := not_or.1 (mt List.mem_cons.2 h)
      rw [insert, if_neg (Ne.symm hentry), ih hrest, List.cons_append]

/-- Entries with keys of their own are written as they are. -/
theorem ofEntries_eq_self {entries : List (κ × ν)} (h : (keys entries).Nodup) :
    ofEntries entries = entries := by
  induction entries using List.reverseRecOn with
  | nil => rfl
  | append_singleton before last ih =>
      rw [keys_append] at h
      have hlast : last.1 ∉ keys before := fun hmem =>
        (List.nodup_append.1 h).2.2 last.1 hmem last.1 List.mem_cons_self rfl
      rw [ofEntries_concat, ih (List.Nodup.of_append_left h), insert_of_not_mem hlast]

theorem nodup_keys_ofEntries (entries : List (κ × ν)) : (keys (ofEntries entries)).Nodup := by
  induction entries using List.reverseRecOn with
  | nil => exact .nil
  | append_singleton before last ih =>
      rw [ofEntries_concat]
      exact nodup_keys_insert ih last.1 last.2

/-- The keys of a table stand in the order in which they were first written. -/
theorem keys_ofEntries (entries : List (κ × ν)) :
    keys (ofEntries entries) = (keys entries).eraseDups := by
  induction entries using List.reverseRecOn with
  | nil => rfl
  | append_singleton before last ih =>
      rw [ofEntries_concat, keys_insert_eq, ih, keys_append, List.eraseDups_append]
      change _ = _ ++ ([last.1].removeAll (keys before)).eraseDups
      by_cases hold : last.1 ∈ keys before
      · rw [if_pos (List.mem_eraseDups.2 hold)]
        simp [List.removeAll, hold]
      · rw [if_neg (mt List.mem_eraseDups.1 hold)]
        simp [List.removeAll, hold, List.eraseDups_cons]

/-- The last write of each key wins. -/
theorem mem_ofEntries {entry : κ × ν} {entries : List (κ × ν)} :
    entry ∈ ofEntries entries ↔ IsLast entry entries := by
  induction entries using List.reverseRecOn with
  | nil => exact iff_of_false List.not_mem_nil (not_isLast_nil entry)
  | append_singleton before last ih =>
      rw [ofEntries_concat, mem_insert (nodup_keys_ofEntries before), ih, isLast_concat]

theorem find?_ofEntries {entry : κ × ν} {entries : List (κ × ν)} (h : IsLast entry entries) :
    find? entry.1 (ofEntries entries) = some entry.2 :=
  find?_of_mem (nodup_keys_ofEntries entries) (mem_ofEntries.2 h)

theorem find?_ofEntries_eq_none {key : κ} {entries : List (κ × ν)} (h : key ∉ keys entries) :
    find? key (ofEntries entries) = none :=
  find?_eq_none (by rwa [keys_ofEntries, List.mem_eraseDups])

end Table

/-! ## Keys -/

namespace Value

/-- Two values are the same as keys: they have the same type, and the language finds them equal,
on any host. -/
def SameKey (a b : Value) : Prop :=
  a.type = b.type ∧ ∀ limit, a.binary "==" b limit = .boolean true

/-- What the language finds equal to a key, if it is of one type, is that key. -/
theorem sameKey_toValue {key : HashKey} {other : Value} :
    SameKey key.toValue other ↔ other = key.toValue := by
  constructor
  · rintro ⟨htype, hequal⟩
    cases key <;> cases other <;> cases htype
    all_goals rw [eq_of_beq (boolean.inj (hequal 0)), HashKey.toValue]
  · rintro rfl
    cases key <;> exact ⟨rfl, fun _ => congrArg boolean (beq_self_eq_true _)⟩

theorem lookUp_hash (table : List (HashKey × Value)) (key : HashKey) :
    (hash table).lookUp key.toValue = (Table.find? key table).getD .null := by
  rw [lookUp, hashKey?_toValue]

end Value

/-! ## Hash literals -/

section

variable (host : Host) (call : Call) (scope : ScopeId)

/-- The pairs of a hash literal, evaluated in order, give these keys and values, and none of them
is an error or cannot be a key. -/
inductive Gathers : List (Node × Node) → Machine → List (HashKey × Value) → Machine → Prop where
  | nil (machine : Machine) : Gathers [] machine [] machine
  | cons {pair : Node × Node} {rest : List (Node × Node)} {key : HashKey} {value : Value}
      {entries : List (HashKey × Value)} {machine keyed valued final : Machine} :
      evaluate host call scope pair.1 machine = .ok key.toValue keyed →
      evaluate host call scope pair.2 keyed = .ok value valued → value.isError = false →
      Gathers rest valued entries final →
      Gathers (pair :: rest) machine ((key, value) :: entries) final

/-- A pair of a hash literal ends its evaluation, with such a result. -/
inductive Interrupts (pair : Node × Node) (machine : Machine) :
    EStateM.Result Fault Machine Value → Prop where
  | keyError {cause : RuntimeError} {final : Machine} :
      evaluate host call scope pair.1 machine = .ok (.error cause) final →
      Interrupts pair machine (.ok (.error cause) final)
  | keyFault {fault : Fault} {final : Machine} :
      evaluate host call scope pair.1 machine = .error fault final →
      Interrupts pair machine (.error fault final)
  | unusable {key : Value} {final : Machine} :
      evaluate host call scope pair.1 machine = .ok key final → key.isError = false →
      key.hashKey? = none → Interrupts pair machine (.ok (.error (.unusableKey key.type)) final)
  | valueError {key : HashKey} {cause : RuntimeError} {keyed final : Machine} :
      evaluate host call scope pair.1 machine = .ok key.toValue keyed →
      evaluate host call scope pair.2 keyed = .ok (.error cause) final →
      Interrupts pair machine (.ok (.error cause) final)
  | valueFault {key : HashKey} {fault : Fault} {keyed final : Machine} :
      evaluate host call scope pair.1 machine = .ok key.toValue keyed →
      evaluate host call scope pair.2 keyed = .error fault final →
      Interrupts pair machine (.error fault final)

end

section

variable {host : Host} {call : Call} {scope : ScopeId}

/-- Once the key of a pair is there, its value is evaluated. -/
theorem evaluatePairs_of_key {pair : Node × Node} {key : HashKey} {machine keyed : Machine}
    (hkey : evaluate host call scope pair.1 machine = .ok key.toValue keyed)
    (table : List (HashKey × Value)) (rest : List (Node × Node)) :
    evaluatePairs host call scope table (pair :: rest) machine =
      Eval.withValue (evaluate host call scope pair.2) (fun value =>
        evaluatePairs host call scope (Table.insert key value table) rest) keyed := by
  have hpasses : key.toValue.isError = false := by cases key <;> rfl
  rw [evaluatePairs, Eval.withValue, Eval.ok_bind hkey, hpasses, if_neg Bool.false_ne_true]
  simp only [Value.hashKey?_toValue]

/-- A pair whose key and value are there is written into the table. -/
theorem evaluatePairs_cons {pair : Node × Node} {key : HashKey} {value : Value}
    {machine keyed valued : Machine}
    (hkey : evaluate host call scope pair.1 machine = .ok key.toValue keyed)
    (hvalue : evaluate host call scope pair.2 keyed = .ok value valued)
    (herror : value.isError = false) (table : List (HashKey × Value)) (rest : List (Node × Node)) :
    evaluatePairs host call scope table (pair :: rest) machine =
      evaluatePairs host call scope (Table.insert key value table) rest valued := by
  rw [evaluatePairs_of_key hkey, Eval.withValue, Eval.ok_bind hvalue, herror,
    if_neg Bool.false_ne_true]

theorem Gathers.evaluatePairs {pairs : List (Node × Node)} {entries : List (HashKey × Value)}
    {machine middle : Machine} (h : Gathers host call scope pairs machine entries middle)
    (table : List (HashKey × Value)) (after : List (Node × Node)) :
    MonkeyLanguage.evaluatePairs host call scope table (pairs ++ after) machine =
      MonkeyLanguage.evaluatePairs host call scope
        (entries.foldl (fun table entry => Table.insert entry.1 entry.2 table) table) after
        middle := by
  induction h generalizing table with
  | nil => rfl
  | cons hkey hvalue herror _ ih =>
      rw [List.cons_append, evaluatePairs_cons hkey hvalue herror, ih]
      rfl

/-- A hash literal whose pairs are all there is the table of its entries. -/
theorem Gathers.evaluate_hash {pairs : List (Node × Node)} {entries : List (HashKey × Value)}
    {machine final : Machine} (h : Gathers host call scope pairs machine entries final)
    (token : Token) :
    evaluate host call scope (.hash token pairs) machine =
      .ok (.hash (Table.ofEntries entries)) final := by
  have hpairs := h.evaluatePairs [] []
  rw [List.append_nil] at hpairs
  rw [evaluate, hpairs]
  rfl

theorem Interrupts.evaluatePairs {pair : Node × Node} {machine : Machine}
    {result : EStateM.Result Fault Machine Value}
    (h : Interrupts host call scope pair machine result) (table : List (HashKey × Value))
    (after : List (Node × Node)) :
    MonkeyLanguage.evaluatePairs host call scope table (pair :: after) machine = result := by
  cases h with
  | keyError hkey =>
      rw [MonkeyLanguage.evaluatePairs, Eval.withValue, Eval.ok_bind hkey]
      rfl
  | keyFault hkey => rw [MonkeyLanguage.evaluatePairs, Eval.withValue, Eval.error_bind hkey]
  | unusable hkey herror hnone =>
      rw [MonkeyLanguage.evaluatePairs, Eval.withValue, Eval.ok_bind hkey, herror,
        if_neg Bool.false_ne_true]
      simp only [hnone]
      rfl
  | valueError hkey hvalue =>
      rw [evaluatePairs_of_key hkey, Eval.withValue, Eval.ok_bind hvalue]
      rfl
  | valueFault hkey hvalue =>
      rw [evaluatePairs_of_key hkey, Eval.withValue, Eval.error_bind hvalue]

/-- A pair gives an entry, or it ends the evaluation. -/
theorem entry_or_interrupts (pair : Node × Node) (machine : Machine) :
    (∃ key value keyed valued,
      evaluate host call scope pair.1 machine = .ok (HashKey.toValue key) keyed ∧
      evaluate host call scope pair.2 keyed = .ok value valued ∧ value.isError = false) ∨
    ∃ result, Interrupts host call scope pair machine result := by
  cases hkey : evaluate host call scope pair.1 machine with
  | error fault keyed => exact .inr ⟨_, .keyFault hkey⟩
  | ok made keyed =>
      cases hmade : made.hashKey? with
      | none =>
          cases made with
          | error cause => exact .inr ⟨_, .keyError hkey⟩
          | _ => exact .inr ⟨_, .unusable hkey rfl hmade⟩
      | some key =>
          obtain rfl := Value.eq_toValue_of_hashKey? hmade
          cases hvalue : evaluate host call scope pair.2 keyed with
          | error fault valued => exact .inr ⟨_, .valueFault hkey hvalue⟩
          | ok value valued =>
              cases value with
              | error cause => exact .inr ⟨_, .valueError hkey hvalue⟩
              | _ => exact .inl ⟨key, _, keyed, valued, rfl, hvalue, rfl⟩

theorem gathers_or_interrupts (pairs : List (Node × Node)) (machine : Machine) :
    (∃ entries final, Gathers host call scope pairs machine entries final) ∨
    ∃ before pair after entries middle result, pairs = before ++ pair :: after ∧
      Gathers host call scope before machine entries middle ∧
      Interrupts host call scope pair middle result := by
  induction pairs generalizing machine with
  | nil => exact .inl ⟨[], machine, .nil machine⟩
  | cons pair rest ih =>
      rcases entry_or_interrupts pair machine with
        ⟨key, value, keyed, valued, hkey, hvalue, herror⟩ | ⟨result, hresult⟩
      · rcases ih valued with ⟨entries, final, hrest⟩ |
          ⟨before, next, after, entries, middle, result, rfl, hbefore, hresult⟩
        · exact .inl ⟨_, final, .cons hkey hvalue herror hrest⟩
        · exact .inr ⟨pair :: before, next, after, _, middle, result, rfl,
            .cons hkey hvalue herror hbefore, hresult⟩
      · exact .inr ⟨[], pair, rest, [], machine, result, rfl, .nil machine, hresult⟩

end

/-- A hash holds what the last of some entries with each key says. Its keys stand in the order in
which they come up first, and look-ups find the last entry whose key is the same. -/
structure HoldsLast (entries table : List (HashKey × Value)) : Prop where
  keys : Table.keys table = (Table.keys entries).eraseDups
  members : ∀ entry, entry ∈ table ↔ Table.IsLast entry entries
  found : ∀ key before entry after, entries = before ++ entry :: after →
    entry.1.toValue.SameKey key → (∀ later ∈ after, ¬ later.1.toValue.SameKey key) →
    (Value.hash table).lookUp key = entry.2
  absent : ∀ key : Value, key.hashKey?.isSome = true →
    (∀ entry ∈ entries, ¬ entry.1.toValue.SameKey key) → (Value.hash table).lookUp key = .null

theorem holdsLast_ofEntries (entries : List (HashKey × Value)) :
    HoldsLast entries (Table.ofEntries entries) where
  keys := Table.keys_ofEntries entries
  members _ := Table.mem_ofEntries
  found key before entry after hentries hsame hafter := by
    obtain rfl := Value.sameKey_toValue.1 hsame
    have hlast : Table.IsLast entry entries := by
      refine ⟨before, after, hentries, fun hkey => ?_⟩
      obtain ⟨later, hlater, hkey⟩ := List.mem_map.1 hkey
      exact hafter later hlater (Value.sameKey_toValue.2 (by rw [hkey]))
    rw [Value.lookUp_hash, Table.find?_ofEntries hlast, Option.getD_some]
  absent key hkey hnone := by
    obtain ⟨hashKey, hkey⟩ := Option.isSome_iff_exists.1 hkey
    obtain rfl := Value.eq_toValue_of_hashKey? hkey
    have hmissing : hashKey ∉ Table.keys entries := fun hmem => by
      obtain ⟨entry, hentry, rfl⟩ := List.mem_map.1 hmem
      exact hnone entry hentry (Value.sameKey_toValue.2 rfl)
    rw [Value.lookUp_hash, Table.find?_ofEntries_eq_none hmissing, Option.getD_none]

/-! ## Hashes of a run -/

/-- In all hashes inside a value, each key has one entry only, which stands under the hash key of
its own key. The second part is true of any table, because a table has its keys as hash keys. -/
inductive Value.WellKeyed : Value → Prop where
  | integer (value : Int) : WellKeyed (.integer value)
  | string (text : String) : WellKeyed (.string text)
  | boolean (value : Bool) : WellKeyed (.boolean value)
  | null : WellKeyed .null
  | returned {value : Value} : WellKeyed value → WellKeyed (.returned value)
  | error (cause : RuntimeError) : WellKeyed (.error cause)
  | builtin (function : Builtin) : WellKeyed (.builtin function)
  | closure (identity : Nat) (parameters : List Node) (body : Node) (scope : ScopeId) :
      WellKeyed (.closure identity parameters body scope)
  | array {elements : List Value} :
      (∀ element ∈ elements, WellKeyed element) → WellKeyed (.array elements)
  | hash {entries : List (HashKey × Value)} :
      (Table.keys entries).Nodup →
      (∀ entry ∈ entries, entry.1.toValue.hashKey? = some entry.1) →
      (∀ entry ∈ entries, WellKeyed entry.2) → WellKeyed (.hash entries)

namespace Value

theorem Belongs.wellKeyed {machine : Machine} {value : Value} (h : value.Belongs machine) :
    value.WellKeyed := by
  induction h with
  | returned _ ih => exact .returned ih
  | array _ ih => exact .array ih
  | hash hkeys _ ih => exact .hash hkeys (fun entry _ => hashKey?_toValue entry.1) ih
  | _ => constructor

theorem Scalar.wellKeyed {value : Value} (h : value.Scalar) : value.WellKeyed := by
  cases h <;> constructor

theorem WellKeyed.received {value : Value} (h : value.WellKeyed) : value.received.WellKeyed := by
  cases h with
  | returned hvalue => exact hvalue
  | array helements => exact .array helements
  | hash hkeys hown hvalues => exact .hash hkeys hown hvalues
  | _ => constructor

theorem WellKeyed.lookUp {target : Value} (h : target.WellKeyed) (key : Value) :
    (target.lookUp key).WellKeyed := by
  apply Value.lookUp_of_contents .null .error
  intro value hvalue
  cases h with
  | array helements => exact helements value hvalue
  | hash _ _ hvalues => exact List.forall_mem_map.2 hvalues value hvalue
  | _ => cases hvalue

end Value

/-- To have well-kept hashes only is a standard for values. -/
def Standard.wellKeyed : Standard where
  value := Value.WellKeyed
  key _ := True
  table entries := (Table.keys entries).Nodup ∧ ∀ entry ∈ entries, entry.2.WellKeyed
  code _ := True
  permits _ _ := True
  children _ _ _ := trivial
  integer _ := .integer _
  string := .string
  boolean := .boolean
  null := .null
  error := .error
  builtin := .builtin
  closure _ identity scope := .closure identity _ _ scope
  body _ := trivial
  returned := .returned
  received := Value.WellKeyed.received
  array := .array
  empty := ⟨.nil, List.forall_mem_nil _⟩
  insert hentries _ hvalue :=
    ⟨Table.nodup_keys_insert hentries.1 _ _, Table.of_mem_insert hentries.2 hvalue⟩
  hash h := .hash h.1 (fun entry _ => Value.hashKey?_toValue entry.1) h.2
  hashKey _ _ := trivial
  prefixed _ operator := (Value.scalar_prefixed operator _).wellKeyed
  binary _ _ operator limit := (Value.scalar_binary operator _ _ limit).wellKeyed
  lookUp htarget _ := htarget.lookUp _
  run _ _ console := (Value.scalar_runBuiltin _ _ console).wellKeyed

/-- In a hash literal, the last pair with a key wins, and keys of different types stay apart. The
first pair that does not give an entry decides what comes of the literal, whatever pairs are behind
it. In no run is there ever a hash with two entries for a key, or with an entry under another key
than its own. -/
theorem hash_lastWins (host : Host) (call : Call) (scope : ScopeId) (token : Token)
    (pairs : List (Node × Node)) (machine : Machine) :
    (∀ entries final, Gathers host call scope pairs machine entries final →
      ∃ table, evaluate host call scope (.hash token pairs) machine = .ok (.hash table) final ∧
        HoldsLast entries table) ∧
    (∀ before pair after entries middle result, pairs = before ++ pair :: after →
      Gathers host call scope before machine entries middle →
      Interrupts host call scope pair middle result →
      evaluate host call scope (.hash token pairs) machine = result) ∧
    ((∃ entries final, Gathers host call scope pairs machine entries final) ∨
      ∃ before pair after entries middle result, pairs = before ++ pair :: after ∧
        Gathers host call scope before machine entries middle ∧
        Interrupts host call scope pair middle result) ∧
    ∀ (settings : Settings) (start : Machine) (scope : ScopeId) (program : Node), start.Attained →
      (∀ moment, Moment.Reaches settings.toHost (settings.begin scope program start) moment →
        moment.Meets .wellKeyed) ∧
      Standard.wellKeyed.Outcome (settings.run scope program start) := by
  refine ⟨fun entries final hentries => ?_, ?_, gathers_or_interrupts pairs machine, ?_⟩
  · exact ⟨Table.ofEntries entries, hentries.evaluate_hash token, holdsLast_ofEntries entries⟩
  · rintro before pair after entries middle result rfl hbefore hpair
    rw [evaluate, hbefore.evaluatePairs, hpair.evaluatePairs]
  · intro settings start scope program hstart
    have hstore : start.store.Holds Value.WellKeyed :=
      hstart.consistent.bound.mono fun _ => Value.Belongs.wellKeyed
    have hbegin : (settings.begin scope program start).Meets .wellKeyed :=
      settings.meets_begin scope program start hstore trivial
    have hpermits : ∀ moment : Moment, Standard.wellKeyed.Permits moment.control := by
      intro moment
      unfold Standard.Permits
      split <;> trivial
    exact ⟨fun moment hmoment => hbegin.reaches (fun later _ => hpermits later) hmoment,
      settings.outcome_run scope program start (hbegin.outcome fun later _ => hpermits later)⟩

/-- The pairs of `\x7b1: 10, true: 20, "1": 30, 1: 40\x7d`. -/
def mixedPairs : List (Node × Node) :=
  [(.integer default 1, .integer default 10), (.boolean default true, .integer default 20),
    (.string default "1", .integer default 30), (.integer default 1, .integer default 40)]

/-- The keys and values of these pairs. -/
def mixedEntries : List (HashKey × Value) :=
  [(.integer 1, .integer 10), (.boolean true, .integer 20), (.string "1", .integer 30),
    (.integer 1, .integer 40)]

/-- The last `1` wins, it stands where the first one did, and neither `true` nor `"1"` is taken for
it. Behind these pairs, an array as a key ends the evaluation before a name that is not there is
looked up. -/
theorem hash_lastWins_mixed :
    (∃ table, evaluate {} (apply {} 0) globalScope (.hash default mixedPairs) .initial =
        .ok (.hash table) .initial ∧ Table.keys table = [.integer 1, .boolean true, .string "1"] ∧
      (Value.hash table).lookUp (.integer 1) = .integer 40 ∧
      (Value.hash table).lookUp (.boolean false) = .null) ∧
    evaluate {} (apply {} 0) globalScope
        (.hash default (mixedPairs ++ (.array default [], .missing) ::
          [(.identifier default "x", .missing)])) .initial =
      .ok (.error (.unusableKey .array)) .initial ∧
    ∀ moment, Moment.Reaches {} (Settings.begin {} globalScope Node.bindMaker .initial) moment →
      moment.Meets .wellKeyed := by
  have hentries : Gathers {} (apply {} 0) globalScope mixedPairs .initial mixedEntries .initial :=
    .cons rfl rfl rfl (.cons rfl rfl rfl (.cons rfl rfl rfl (.cons rfl rfl rfl (.nil _))))
  have hunusable : Interrupts {} (apply {} 0) globalScope (.array default [], .missing) .initial
      (.ok (.error (.unusableKey (Value.array []).type)) .initial) :=
    .unusable rfl rfl rfl
  obtain ⟨hgathered, -, -, hruns⟩ :=
    hash_lastWins {} (apply {} 0) globalScope default mixedPairs .initial
  obtain ⟨table, htable, hlast⟩ := hgathered mixedEntries .initial hentries
  refine ⟨⟨table, htable, hlast.keys.trans (by decide), ?_, ?_⟩, ?_,
    (hruns {} .initial globalScope Node.bindMaker .initial).1⟩
  · exact hlast.found (.integer 1) (mixedEntries.take 3) (.integer 1, .integer 40) [] rfl
      ⟨rfl, fun _ => rfl⟩ (List.forall_mem_nil _)
  · refine hlast.absent (.boolean false) rfl fun entry hentry hsame => ?_
    have hkeys : ∀ entry ∈ mixedEntries, entry.1 ≠ .boolean false := by decide
    have hkey := congrArg Value.hashKey? (Value.sameKey_toValue.1 hsame)
    rw [Value.hashKey?_toValue] at hkey
    exact hkeys entry hentry (Option.some.inj hkey).symm
  · obtain ⟨-, hinterrupted, -, -⟩ := hash_lastWins {} (apply {} 0) globalScope default
      (mixedPairs ++ (.array default [], .missing) :: [(.identifier default "x", .missing)])
      .initial
    exact hinterrupted mixedPairs _ _ mixedEntries .initial _ rfl hentries hunusable

end MonkeyLanguage
