-- SUMMARY: Values without errors inside, and operations that make only such values or errors.
import MonkeyLanguage.Evaluation
import MonkeyLanguage.Proofs.Run.Moment

/-!
# Clean values

A clean value has no error inside, however deep. Whether it may have returned values inside, and
what is asked of the code of its functions, are parameters, because a run keeps more than one
promise about the values that it stores.
-/

namespace MonkeyLanguage

/-- The value has no error inside, returned values only if these are allowed, and functions only
with such code. -/
inductive Value.Clean (returns : Prop) (code : List Node → Node → Prop) : Value → Prop where
  | integer (value : Int) : Clean returns code (.integer value)
  | string (text : String) : Clean returns code (.string text)
  | boolean (value : Bool) : Clean returns code (.boolean value)
  | null : Clean returns code .null
  | returned {value : Value} :
      returns → Clean returns code value → Clean returns code (.returned value)
  | builtin (function : Builtin) : Clean returns code (.builtin function)
  | closure {identity : Nat} {parameters : List Node} {body : Node} {scope : ScopeId} :
      code parameters body → Clean returns code (.closure identity parameters body scope)
  | array {elements : List Value} :
      (∀ element ∈ elements, Clean returns code element) → Clean returns code (.array elements)
  | hash {entries : List (HashKey × Value)} :
      (∀ entry ∈ entries, Clean returns code entry.2) → Clean returns code (.hash entries)

/-- The value holds no other values, and it is no function: an error, or data that operators and
built-in functions compute. -/
inductive Value.Scalar : Value → Prop where
  | integer (value : Int) : Scalar (.integer value)
  | string (text : String) : Scalar (.string text)
  | boolean (value : Bool) : Scalar (.boolean value)
  | null : Scalar .null
  | error (cause : RuntimeError) : Scalar (.error cause)

/-! ## Tables -/

namespace Table

variable {κ ν : Type} [DecidableEq κ] {good : ν → Prop}

theorem of_find? {key : κ} {value : ν} {table : List (κ × ν)} (h : ∀ entry ∈ table, good entry.2)
    (hfound : find? key table = some value) : good value := by
  induction table with
  | nil => cases hfound
  | cons entry rest ih =>
      rw [find?] at hfound
      split at hfound
      · cases hfound
        exact h entry List.mem_cons_self
      · exact ih (fun other hother => h other (List.mem_cons_of_mem _ hother)) hfound

theorem of_mem_insert {key : κ} {value : ν} {table : List (κ × ν)}
    (h : ∀ entry ∈ table, good entry.2) (hvalue : good value) :
    ∀ entry ∈ insert key value table, good entry.2 := by
  induction table with
  | nil =>
      intro entry hentry
      rw [List.mem_singleton.1 hentry]
      exact hvalue
  | cons first rest ih =>
      obtain ⟨hfirst, hrest⟩ := List.forall_mem_cons.1 h
      rw [insert]
      split
      · exact List.forall_mem_cons.2 ⟨hvalue, hrest⟩
      · exact List.forall_mem_cons.2 ⟨hfirst, ih hrest⟩

end Table

namespace Value

variable {returns : Prop} {code : List Node → Node → Prop}

/-- What an operation computes: an error or a clean value. -/
def Computed (returns : Prop) (code : List Node → Node → Prop) (value : Value) : Prop :=
  value.isError = true ∨ value.Clean returns code

/-- What can be answered: an error, or a value that is clean but for the `return` that sends it. -/
def Answer (returns : Prop) (code : List Node → Node → Prop) (value : Value) : Prop :=
  value.isError = true ∨ value.received.Clean returns code

theorem Clean.mono {code' : List Node → Node → Prop} {value : Value}
    (hcode : ∀ parameters body, code parameters body → code' parameters body)
    (h : value.Clean returns code) : value.Clean returns code' := by
  induction h with
  | returned hreturns _ ih => exact .returned hreturns ih
  | closure hbody => exact .closure (hcode _ _ hbody)
  | array _ ih => exact .array ih
  | hash _ ih => exact .hash ih
  | _ => constructor

theorem Clean.received {value : Value} (h : value.Clean returns code) :
    value.received.Clean returns code := by
  cases h with
  | returned _ hvalue => exact hvalue
  | array helements => exact .array helements
  | hash hentries => exact .hash hentries
  | closure hcode => exact .closure hcode
  | _ => constructor

theorem Clean.computed {value : Value} (h : value.Clean returns code) :
    value.Computed returns code :=
  .inr h

theorem computed_error (cause : RuntimeError) : (Value.error cause).Computed returns code :=
  .inl rfl

theorem Scalar.computed {value : Value} (h : value.Scalar) : value.Computed returns code := by
  cases h with
  | error cause => exact computed_error cause
  | _ => exact Clean.computed (by constructor)

theorem Computed.answer {value : Value} (h : value.Computed returns code) :
    value.Answer returns code := by
  rcases h with herror | hclean
  · exact .inl herror
  · exact .inr hclean.received

theorem Clean.answer {value : Value} (h : value.Clean returns code) :
    value.Answer returns code :=
  .inr h.received

theorem answer_error (cause : RuntimeError) : (Value.error cause).Answer returns code :=
  .inl rfl

/-- What a call or a program makes of an answer can be answered again. -/
theorem Answer.received {value : Value} (h : value.Answer returns code) :
    value.received.Answer returns code := by
  rcases h with herror | hclean
  · cases value with
    | error cause => exact answer_error cause
    | _ => cases herror
  · exact hclean.answer

/-- If returned values are allowed inside values, all answers but errors are clean. -/
theorem Answer.clean {value : Value} (h : value.Answer True code) (herror : value.isError = false) :
    value.Clean True code := by
  rcases h with h | hclean
  · rw [herror] at h
    cases h
  · cases value with
    | returned value => exact .returned trivial hclean
    | _ => exact hclean

/-! ## Operators and look-ups -/

theorem mem_of_element? {elements : List Value} {place : Int} {element : Value}
    (h : element? elements place = some element) : element ∈ elements := by
  unfold element? at h
  split at h
  · cases h
  · exact List.mem_of_getElem? h

/-- The values directly inside a value. -/
def contents : Value → List Value
  | array elements => elements
  | hash entries => entries.map Prod.snd
  | _ => []

/-- A look-up finds something inside the value, or it gives `null` or an error. -/
theorem lookUp_of_contents {good : Value → Prop} {target : Value} (hnull : good .null)
    (herror : ∀ cause, good (.error cause)) (h : ∀ value ∈ target.contents, good value)
    (key : Value) : good (target.lookUp key) := by
  unfold Value.lookUp
  split
  case h_1 elements place =>
    cases helement : element? elements place with
    | none => exact hnull
    | some element => exact h element (mem_of_element? helement)
  case h_2 entries =>
    split
    · cases hfound : Table.find? _ entries with
      | none => exact hnull
      | some value => exact Table.of_find? (List.forall_mem_map.1 h) hfound
    · exact herror _
  case h_3 => exact herror _

theorem scalar_prefixed (operator : String) (right : Value) :
    (right.prefixed operator).Scalar := by
  unfold Value.prefixed
  split
  · exact .boolean _
  · exact .integer _
  · exact .error _

theorem scalar_integerBinary (operator : String) (a b : Int) :
    (integerBinary operator a b).Scalar := by
  unfold integerBinary
  split
  case h_4 =>
    split
    · exact .error _
    · exact .integer _
  case h_9 => exact .error _
  all_goals first | exact .integer _ | exact .boolean _

theorem scalar_booleanBinary (operator : String) (a b : Bool) :
    (booleanBinary operator a b).Scalar := by
  unfold booleanBinary
  split
  case h_5 => exact .error _
  all_goals exact .boolean _

theorem scalar_stringBinary (operator : String) (a b : String) :
    (stringBinary operator a b).Scalar := by
  unfold stringBinary
  split
  case h_1 => exact .string _
  case h_4 => exact .error _
  all_goals exact .boolean _

theorem scalar_repetition (limit : Nat) (text : String) (count : Int) :
    (repetition limit text count).Scalar := by
  unfold repetition
  split
  · exact .error _
  · split <;> exact .string _

theorem scalar_binary (operator : String) (left right : Value) (limit : Nat) :
    (left.binary operator right limit).Scalar := by
  unfold Value.binary
  split
  · exact scalar_integerBinary ..
  · exact scalar_booleanBinary ..
  · exact scalar_stringBinary ..
  · split
    · exact scalar_repetition ..
    · split <;> exact .error _

theorem computed_prefixed (operator : String) (right : Value) :
    (right.prefixed operator).Computed returns code :=
  (scalar_prefixed operator right).computed

theorem computed_binary (operator : String) (left right : Value) (limit : Nat) :
    (left.binary operator right limit).Computed returns code :=
  (scalar_binary operator left right limit).computed

theorem Clean.lookUp {target : Value} (h : target.Clean returns code) (key : Value) :
    (target.lookUp key).Computed returns code := by
  apply lookUp_of_contents Clean.null.computed computed_error
  intro value hvalue
  cases h with
  | array helements => exact (helements value hvalue).computed
  | hash hentries => exact (List.forall_mem_map.2 hentries value hvalue).computed
  | _ => cases hvalue

/-! ## Built-in functions -/

theorem scalar_runBuiltin (builtin : Builtin) (arguments : List Value) (console : Console) :
    (builtin.run arguments console).1.Scalar := by
  cases builtin with
  | length =>
      simp only [Builtin.run, Builtin.runLength]
      split
      · exact .integer _
      · exact .integer _
      · exact .error _
      · exact .error _
  | printFormatted =>
      simp only [Builtin.run]
      unfold Builtin.runPrintFormatted
      split
      · exact .error _
      · split
        · exact .null
        · exact .error _
  | printLine =>
      simp only [Builtin.run]
      unfold Builtin.runPrintLine
      split
      · exact .error _
      · exact .null

theorem computed_runBuiltin (builtin : Builtin) (arguments : List Value) (console : Console) :
    (builtin.run arguments console).1.Computed returns code :=
  (scalar_runBuiltin builtin arguments console).computed

end Value

/-! ## Stores -/

namespace Store

/-- All values that are bound in a store have a property. -/
def Holds (good : Value → Prop) (store : Store) : Prop :=
  ∀ scope ∈ store.scopes, ∀ entry ∈ scope.bindings, good entry.2

variable {good : Value → Prop} {store : Store}

theorem Holds.mono {good' : Value → Prop} (h : store.Holds good)
    (hgood : ∀ value, good value → good' value) : store.Holds good' :=
  fun scope hscope entry hentry => hgood entry.2 (h scope hscope entry hentry)

theorem holds_empty (good : Value → Prop) : empty.Holds good := by
  intro scope hscope
  simp [empty] at hscope

theorem Holds.addScope (h : store.Holds good) (outer : Option ScopeId) :
    (store.addScope outer).Holds good := by
  intro scope hscope
  rcases Array.mem_push.1 hscope with hscope | rfl
  · exact h scope hscope
  · simp

theorem Holds.bind (h : store.Holds good) (id : ScopeId) (name : String) {value : Value}
    (hvalue : good value) : (store.bind id name value).Holds good := by
  intro scope hscope
  simp only [Store.bind, Array.mem_iff_getElem, Array.getElem_modify, Array.size_modify] at hscope
  obtain ⟨place, hplace, rfl⟩ := hscope
  have hold := h store.scopes[place] (Array.getElem_mem hplace)
  split
  · exact Table.of_mem_insert hold hvalue
  · exact hold

theorem Holds.bindAll {entries : List (String × Value)} (h : store.Holds good) (id : ScopeId)
    (hentries : ∀ entry ∈ entries, good entry.2) : (store.bindAll id entries).Holds good := by
  induction entries generalizing store with
  | nil => exact h
  | cons entry rest ih =>
      obtain ⟨hentry, hrest⟩ := List.forall_mem_cons.1 hentries
      exact ih (h.bind id entry.1 hentry) hrest

theorem Holds.of_bindings (h : store.Holds good) (scope : ScopeId) :
    ∀ entry ∈ store.bindings scope, good entry.2 := by
  unfold bindings
  cases hscope : store.scopes[scope]? with
  | none => simp
  | some found => exact h found (Array.mem_of_getElem? hscope)

theorem Holds.of_find? (h : store.Holds good) {scope : ScopeId} {name : String} {value : Value}
    (hfound : store.find? scope name = some value) : good value := by
  obtain ⟨id, _, hid⟩ := List.exists_of_findSome?_eq_some hfound
  exact Table.of_find? (h.of_bindings id) hid

/-- What a name stands for is bound somewhere, built in, or an error. -/
theorem Holds.computed_valueOf {returns : Prop} {code : List Node → Node → Prop}
    (h : store.Holds (Value.Clean returns code)) (scope : ScopeId) (name : String) :
    (store.valueOf scope name).Computed returns code := by
  unfold valueOf
  split
  case h_1 value hfound => exact (h.of_find? hfound).computed
  case h_2 =>
    split
    · exact (Value.Clean.builtin _).computed
    · exact Value.computed_error _

end Store

end MonkeyLanguage
