-- SUMMARY: How code completes, as one equation for each construct.
import MonkeyLanguage.Proofs.Completion.Rules

/-!
# Completion, construct by construct

The rules of a construct together say how it completes in terms of how its parts complete. Nearly
always the construct goes on with the result of a part, and is left if the part is left. With
that as an operation (`Behaviour.andThen`) the rules of each construct make one equation.
-/

namespace MonkeyLanguage

/-- How some work can complete: from which machine, in which way, and with which machine. -/
abbrev Behaviour (α : Type) := Machine → Completion α → Machine → Prop

namespace Behaviour

variable {α β : Type}

/-- Work that never completes. -/
def stuck : Behaviour α :=
  fun _ _ _ => False

/-- Work that completes at once and changes nothing. -/
def ends (completion : Completion α) : Behaviour α :=
  fun machine result final => result = completion ∧ final = machine

/-- Work that goes on with the result of other work, and is left if that is left. -/
def andThen (first : Behaviour α) (next : α → Behaviour β) : Behaviour β :=
  fun machine completion final =>
    (∃ result middle, first machine (.normal result) middle ∧ next result middle completion final) ∨
      ∃ exit, first machine (.abrupt exit) final ∧ completion = .abrupt exit

/-- Work at the end of which a `return` inside of it ends. -/
def received (behaviour : Behaviour Value) : Behaviour Value :=
  fun machine completion final =>
    ∃ inner, behaviour machine inner final ∧ completion = inner.received

theorem ext {behaviour other : Behaviour α}
    (h : ∀ machine completion final,
      behaviour machine completion final ↔ other machine completion final) :
    behaviour = other :=
  funext fun machine => funext fun completion => funext fun final =>
    propext (h machine completion final)

/-- Work completes at once if it can do so and can do nothing else. -/
theorem eq_ends {behaviour : Behaviour α} {completion : Completion α}
    (hends : ∀ machine, behaviour machine completion machine)
    (honly : ∀ machine result final, behaviour machine result final →
      result = completion ∧ final = machine) : behaviour = ends completion := by
  refine ext fun machine result final => ⟨honly machine result final, ?_⟩
  rintro ⟨rfl, rfl⟩
  exact hends _

end Behaviour

open Behaviour

section

variable {host : Host} {depth : Nat} {scope : ScopeId} {token : Token}

/-! ## Statements -/

theorem completes_program {statements : List Node} :
    Completes host depth scope (.program token statements) =
      received (SequenceCompletes host depth scope .null statements) := by
  refine ext fun machine completion final => ⟨fun h => ?_, fun h => ?_⟩
  · cases h with
    | program h => exact ⟨_, h, rfl⟩
  · obtain ⟨inner, h, rfl⟩ := h
    exact .program h

/-- The name of a `let` is bound to its value. -/
def binds (host : Host) (scope : ScopeId) (value : Value) : (name : Node) → Behaviour Value
  | .identifier _ name => fun machine completion final =>
    completion = .normal value ∧ final = machine.afterLet host scope name value
  | _ => stuck

theorem completes_letStatement {name node : Node} :
    Completes host depth scope (.letStatement token name node) =
      andThen (Completes host depth scope node) fun value => binds host scope value name := by
  refine ext fun machine completion final => ⟨fun h => ?_, fun h => ?_⟩
  · cases h with
    | letStatement h => exact .inl ⟨_, _, h, rfl, rfl⟩
    | letExit h => exact .inr ⟨_, h, rfl⟩
  · obtain ⟨value, middle, h, hbinds⟩ | ⟨exit, h, rfl⟩ := h
    · cases name with
      | identifier other name =>
          obtain ⟨rfl, rfl⟩ := hbinds
          exact .letStatement h
      | _ => exact hbinds.elim
    · exact .letExit h

theorem completes_returnStatement {node : Node} :
    Completes host depth scope (.returnStatement token node) =
      andThen (Completes host depth scope node) fun value =>
        ends (.abrupt (.returned value)) := by
  refine ext fun machine completion final => ⟨fun h => ?_, fun h => ?_⟩
  · cases h with
    | returnStatement h => exact .inl ⟨_, _, h, rfl, rfl⟩
    | returnExit h => exact .inr ⟨_, h, rfl⟩
  · obtain ⟨value, middle, h, rfl, rfl⟩ | ⟨exit, h, rfl⟩ := h
    · exact .returnStatement h
    · exact .returnExit h

theorem completes_expressionStatement {node : Node} :
    Completes host depth scope (.expressionStatement token node) =
      Completes host depth scope node := by
  refine ext fun machine completion final => ⟨fun h => ?_, .expressionStatement⟩
  cases h with
  | expressionStatement h => exact h

theorem completes_block {statements : List Node} :
    Completes host depth scope (.block token statements) =
      SequenceCompletes host depth scope .null statements := by
  refine ext fun machine completion final => ⟨fun h => ?_, .block⟩
  cases h with
  | block h => exact h

theorem sequenceCompletes_nil {last : Value} :
    SequenceCompletes host depth scope last [] = ends (.normal last) := by
  refine eq_ends (fun _ => .done) fun _ _ _ h => ?_
  cases h with
  | done => exact ⟨rfl, rfl⟩

theorem sequenceCompletes_cons {last : Value} {statement : Node} {rest : List Node} :
    SequenceCompletes host depth scope last (statement :: rest) =
      andThen (Completes host depth scope statement) fun value =>
        SequenceCompletes host depth scope value rest := by
  refine ext fun machine completion final => ⟨fun h => ?_, fun h => ?_⟩
  · cases h with
    | next h hrest => exact .inl ⟨_, _, h, hrest⟩
    | exit h => exact .inr ⟨_, h, rfl⟩
  · obtain ⟨value, middle, h, hrest⟩ | ⟨exit, h, rfl⟩ := h
    · exact .next h hrest
    · exact .exit h

/-! ## Expressions -/

theorem completes_identifier {name : String} {machine : Machine} {completion : Completion Value}
    {final : Machine} :
    Completes host depth scope (.identifier token name) machine completion final ↔
      ends (.computed (machine.store.valueOf scope name)) machine completion final := by
  refine ⟨fun h => ?_, fun h => ?_⟩
  · cases h with
    | identifier => exact ⟨rfl, rfl⟩
  · obtain ⟨rfl, rfl⟩ := h
    exact .identifier

theorem completes_integer {value : Int} :
    Completes host depth scope (.integer token value) = ends (.normal (.integer value)) := by
  refine eq_ends (fun _ => .integer) fun _ _ _ h => ?_
  cases h with
  | integer => exact ⟨rfl, rfl⟩

theorem completes_string {text : String} :
    Completes host depth scope (.string token text) = ends (.normal (.string text)) := by
  refine eq_ends (fun _ => .string) fun _ _ _ h => ?_
  cases h with
  | string => exact ⟨rfl, rfl⟩

theorem completes_boolean {value : Bool} :
    Completes host depth scope (.boolean token value) = ends (.normal (.boolean value)) := by
  refine eq_ends (fun _ => .boolean) fun _ _ _ h => ?_
  cases h with
  | boolean => exact ⟨rfl, rfl⟩

theorem completes_prefixed {operator : String} {node : Node} :
    Completes host depth scope (.prefixed token operator node) =
      andThen (Completes host depth scope node) fun right =>
        ends (.computed (right.prefixed operator)) := by
  refine ext fun machine completion final => ⟨fun h => ?_, fun h => ?_⟩
  · cases h with
    | prefixed h => exact .inl ⟨_, _, h, rfl, rfl⟩
    | prefixedExit h => exact .inr ⟨_, h, rfl⟩
  · obtain ⟨right, middle, h, rfl, rfl⟩ | ⟨exit, h, rfl⟩ := h
    · exact .prefixed h
    · exact .prefixedExit h

theorem completes_binary {operator : String} {first second : Node} :
    Completes host depth scope (.binary token operator first second) =
      andThen (Completes host depth scope first) fun left =>
        andThen (Completes host depth scope second) fun right =>
          ends (.computed (left.binary operator right host.repetitionLimit)) := by
  refine ext fun machine completion final => ⟨fun h => ?_, fun h => ?_⟩
  · cases h with
    | binary h hsecond => exact .inl ⟨_, _, h, .inl ⟨_, _, hsecond, rfl, rfl⟩⟩
    | leftExit h => exact .inr ⟨_, h, rfl⟩
    | rightExit h hsecond => exact .inl ⟨_, _, h, .inr ⟨_, hsecond, rfl⟩⟩
  · obtain ⟨left, middle, h, ⟨right, last, hsecond, rfl, rfl⟩ | ⟨exit, hsecond, rfl⟩⟩ |
      ⟨exit, h, rfl⟩ := h
    · exact .binary h hsecond
    · exact .rightExit h hsecond
    · exact .leftExit h

/-- The alternative of a conditional, which may be missing. -/
def alternativeCompletes (host : Host) (depth : Nat) (scope : ScopeId) : Node → Behaviour Value
  | .missing => ends (.normal .null)
  | alternative => Completes host depth scope alternative

theorem completes_conditional {condition consequence alternative : Node} :
    Completes host depth scope (.conditional token condition consequence alternative) =
      andThen (Completes host depth scope condition) fun value machine =>
        (if value.isTruthy then Completes host depth scope consequence
          else alternativeCompletes host depth scope alternative)
          (machine.trace host.traceLevel (.decided value)) := by
  refine ext fun machine completion final => ⟨fun h => ?_, fun h => ?_⟩
  · cases h with
    | consequence h hvalue hbranch =>
        refine .inl ⟨_, _, h, ?_⟩
        dsimp only
        rw [hvalue, if_pos rfl]
        exact hbranch
    | alternative h hvalue hbranch =>
        refine .inl ⟨_, _, h, ?_⟩
        dsimp only
        rw [hvalue, if_neg Bool.false_ne_true]
        cases alternative with
        | missing => cases hbranch
        | _ => exact hbranch
    | noAlternative h hvalue =>
        refine .inl ⟨_, _, h, ?_⟩
        dsimp only
        rw [hvalue, if_neg Bool.false_ne_true]
        exact ⟨rfl, rfl⟩
    | conditionExit h => exact .inr ⟨_, h, rfl⟩
  · obtain ⟨value, middle, h, hbranch⟩ | ⟨exit, h, rfl⟩ := h
    · cases hvalue : value.isTruthy with
      | true =>
          rw [hvalue, if_pos rfl] at hbranch
          exact .consequence h hvalue hbranch
      | false =>
          rw [hvalue, if_neg Bool.false_ne_true] at hbranch
          cases alternative with
          | missing =>
              obtain ⟨rfl, rfl⟩ := hbranch
              exact .noAlternative h hvalue
          | _ => exact .alternative h hvalue hbranch
    · exact .conditionExit h

theorem completes_function {parameters : List Node} {body : Node} {machine : Machine}
    {completion : Completion Value} {final : Machine} :
    Completes host depth scope (.function token parameters body) machine completion final ↔
      completion = .normal (.closure machine.closures parameters body scope) ∧
        final = machine.afterClosure := by
  refine ⟨fun h => ?_, fun h => ?_⟩
  · cases h with
    | function => exact ⟨rfl, rfl⟩
  · obtain ⟨rfl, rfl⟩ := h
    exact .function

theorem completes_call {callee : Node} {nodes : List Node} :
    Completes host depth scope (.call token callee nodes) =
      andThen (Completes host depth scope callee) fun function =>
        andThen (ItemsComplete host depth scope nodes) fun arguments =>
          CallCompletes host depth function arguments := by
  refine ext fun machine completion final => ⟨fun h => ?_, fun h => ?_⟩
  · cases h with
    | call h harguments hcall => exact .inl ⟨_, _, h, .inl ⟨_, _, harguments, hcall⟩⟩
    | calleeExit h => exact .inr ⟨_, h, rfl⟩
    | argumentsExit h harguments => exact .inl ⟨_, _, h, .inr ⟨_, harguments, rfl⟩⟩
  · obtain ⟨function, middle, h, ⟨arguments, last, harguments, hcall⟩ | ⟨exit, harguments, rfl⟩⟩ |
      ⟨exit, h, rfl⟩ := h
    · exact .call h harguments hcall
    · exact .argumentsExit h harguments
    · exact .calleeExit h

theorem completes_array {nodes : List Node} :
    Completes host depth scope (.array token nodes) =
      andThen (ItemsComplete host depth scope nodes) fun elements =>
        ends (.normal (.array elements)) := by
  refine ext fun machine completion final => ⟨fun h => ?_, fun h => ?_⟩
  · cases h with
    | array h => exact .inl ⟨_, _, h, rfl, rfl⟩
    | arrayExit h => exact .inr ⟨_, h, rfl⟩
  · obtain ⟨elements, middle, h, rfl, rfl⟩ | ⟨exit, h, rfl⟩ := h
    · exact .array h
    · exact .arrayExit h

theorem completes_hash {pairs : List (Node × Node)} :
    Completes host depth scope (.hash token pairs) =
      PairsComplete host depth scope [] pairs := by
  refine ext fun machine completion final => ⟨fun h => ?_, .hash⟩
  cases h with
  | hash h => exact h

theorem completes_index {first second : Node} :
    Completes host depth scope (.index token first second) =
      andThen (Completes host depth scope first) fun target =>
        andThen (Completes host depth scope second) fun key =>
          ends (.computed (target.lookUp key)) := by
  refine ext fun machine completion final => ⟨fun h => ?_, fun h => ?_⟩
  · cases h with
    | index h hsecond => exact .inl ⟨_, _, h, .inl ⟨_, _, hsecond, rfl, rfl⟩⟩
    | targetExit h => exact .inr ⟨_, h, rfl⟩
    | keyExit h hsecond => exact .inl ⟨_, _, h, .inr ⟨_, hsecond, rfl⟩⟩
  · obtain ⟨target, middle, h, ⟨key, last, hsecond, rfl, rfl⟩ | ⟨exit, hsecond, rfl⟩⟩ |
      ⟨exit, h, rfl⟩ := h
    · exact .index h hsecond
    · exact .keyExit h hsecond
    · exact .targetExit h

theorem completes_missing : Completes host depth scope .missing = stuck := by
  refine ext fun machine completion final => ⟨fun h => ?_, False.elim⟩
  cases h

theorem completes_foreign : Completes host depth scope .foreign = stuck := by
  refine ext fun machine completion final => ⟨fun h => ?_, False.elim⟩
  cases h

/-! ## Items and pairs -/

theorem itemsComplete_nil : ItemsComplete host depth scope [] = ends (.normal []) := by
  refine eq_ends (fun _ => .done) fun _ _ _ h => ?_
  cases h with
  | done => exact ⟨rfl, rfl⟩

theorem itemsComplete_cons {node : Node} {rest : List Node} :
    ItemsComplete host depth scope (node :: rest) =
      andThen (Completes host depth scope node) fun value =>
        andThen (ItemsComplete host depth scope rest) fun values =>
          ends (.normal (value :: values)) := by
  refine ext fun machine completion final => ⟨fun h => ?_, fun h => ?_⟩
  · cases h with
    | next h hrest => exact .inl ⟨_, _, h, .inl ⟨_, _, hrest, rfl, rfl⟩⟩
    | exit h => exact .inr ⟨_, h, rfl⟩
    | restExit h hrest => exact .inl ⟨_, _, h, .inr ⟨_, hrest, rfl⟩⟩
  · obtain ⟨value, middle, h, ⟨values, last, hrest, rfl, rfl⟩ | ⟨exit, hrest, rfl⟩⟩ |
      ⟨exit, h, rfl⟩ := h
    · exact .next h hrest
    · exact .restExit h hrest
    · exact .exit h

theorem pairsComplete_nil {entries : List (HashKey × Value)} :
    PairsComplete host depth scope entries [] = ends (.normal (.hash entries)) := by
  refine eq_ends (fun _ => .done) fun _ _ _ h => ?_
  cases h with
  | done => exact ⟨rfl, rfl⟩

theorem pairsComplete_cons {entries : List (HashKey × Value)} {first second : Node}
    {rest : List (Node × Node)} :
    PairsComplete host depth scope entries ((first, second) :: rest) =
      andThen (Completes host depth scope first) fun key =>
        match key.hashKey? with
        | none => ends (.abrupt (.failed (.unusableKey key.type)))
        | some hashKey =>
          andThen (Completes host depth scope second) fun value =>
            PairsComplete host depth scope (Table.insert hashKey value entries) rest := by
  refine ext fun machine completion final => ⟨fun h => ?_, fun h => ?_⟩
  · cases h with
    | next h hkey hsecond hrest =>
        refine .inl ⟨_, _, h, ?_⟩
        dsimp only
        rw [hkey]
        exact .inl ⟨_, _, hsecond, hrest⟩
    | keyExit h => exact .inr ⟨_, h, rfl⟩
    | unusable h hkey =>
        refine .inl ⟨_, _, h, ?_⟩
        dsimp only
        rw [hkey]
        exact ⟨rfl, rfl⟩
    | valueExit h hkey hsecond =>
        refine .inl ⟨_, _, h, ?_⟩
        dsimp only
        rw [hkey]
        exact .inr ⟨_, hsecond, rfl⟩
  · obtain ⟨key, middle, h, hnext⟩ | ⟨exit, h, rfl⟩ := h
    · cases hkey : key.hashKey? with
      | none =>
          rw [hkey] at hnext
          obtain ⟨rfl, rfl⟩ := hnext
          exact .unusable h hkey
      | some hashKey =>
          rw [hkey] at hnext
          obtain ⟨value, last, hsecond, hrest⟩ | ⟨exit, hsecond, rfl⟩ := hnext
          · exact .next h hkey hsecond hrest
          · exact .valueExit h hkey hsecond
    · exact .keyExit h

end

end MonkeyLanguage
