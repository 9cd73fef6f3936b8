-- SUMMARY: Insertion-ordered tables in which the last write of a key wins.

/-!
# Tables

A table is a list of keys with their values. Writing a key that is already there
replaces its value and leaves it where it stands; a new key goes to the end. The
same tables serve for the bindings of a scope and for the entries of a hash.
-/

namespace MonkeyLanguage.Table

variable {κ ν : Type} [DecidableEq κ]

/-- Write a value under a key. -/
def insert (key : κ) (value : ν) : List (κ × ν) → List (κ × ν)
  | [] => [(key, value)]
  | entry :: rest =>
    if entry.1 = key then (key, value) :: rest else entry :: insert key value rest

/-- The value under a key. -/
def find? (key : κ) : List (κ × ν) → Option ν
  | [] => none
  | entry :: rest => if entry.1 = key then some entry.2 else find? key rest

/-- The table made by writing entries one after the other. -/
def ofEntries (entries : List (κ × ν)) : List (κ × ν) :=
  entries.foldl (fun table entry => insert entry.1 entry.2 table) []

/-- The keys, in the order in which they were first written. -/
def keys (table : List (κ × ν)) : List κ :=
  table.map Prod.fst

theorem find?_insert_self (key : κ) (value : ν) (table : List (κ × ν)) :
    find? key (insert key value table) = some value := by
  induction table with
  | nil => simp [insert, find?]
  | cons entry rest ih => by_cases h : entry.1 = key <;> simp [insert, find?, h, ih]

theorem find?_insert_of_ne {key other : κ} (h : other ≠ key) (value : ν)
    (table : List (κ × ν)) :
    find? other (insert key value table) = find? other table := by
  induction table with
  | nil => simp [insert, find?, h.symm]
  | cons entry rest ih =>
    by_cases found : entry.1 = key
    · have passed : entry.1 ≠ other := fun same => h (same.symm.trans found)
      rw [insert, if_pos found, find?, if_neg h.symm, find?, if_neg passed]
    · rw [insert, if_neg found, find?, find?, ih]

end MonkeyLanguage.Table
