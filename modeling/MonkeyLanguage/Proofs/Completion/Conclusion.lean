-- SUMMARY: What the run of a program comes to by the rules for how code completes.
import MonkeyLanguage.Proofs.Completion.Agreement

/-!
# Runs without signals

A program completes by the rules as any code does, and a `return` that nothing else has ended ends
with it. The run of a source text in which conditionals with a `return` in a branch stand as
statements comes to exactly that.
-/

namespace MonkeyLanguage

namespace Settings

/-- What a program comes to by the rules: a result, or the error that it is left with. Its start
is traced, and so is such an error. -/
inductive Concludes (settings : Settings) (scope : ScopeId) (program : Node) (machine : Machine) :
    Value → Machine → Prop
  | result {value : Value} {final : Machine} :
      Completes settings.toHost settings.depth scope program
        (machine.trace settings.traceLevel (.started program.statements.length))
        (.normal value) final →
      Concludes settings scope program machine value final
  | failure {cause : RuntimeError} {final : Machine} :
      Completes settings.toHost settings.depth scope program
        (machine.trace settings.traceLevel (.started program.statements.length))
        (.abrupt (.failed cause)) final →
      Concludes settings scope program machine (.error cause)
        (final.trace settings.traceLevel (.failed cause))

variable (settings : Settings)

theorem run_iff_of_agrees {scope : ScopeId} {program : Node} {machine : Machine}
    (hagrees : NodeAgrees settings.toHost settings.depth scope program
      (settings.begin scope program machine).machine)
    (hreturned : ∀ value final,
      (settings.begin scope program machine).meaning settings.toHost = .ok value final →
      value.isReturned = false) (value : Value) (final : Machine) :
    settings.run scope program machine = .ok value final ↔
      settings.Concludes scope program machine value final := by
  rw [run_eq]
  refine ⟨fun h => ?_, fun h => ?_⟩
  · cases hmeaning : (settings.begin scope program machine).meaning settings.toHost with
    | ok result middle =>
        rw [hmeaning] at h
        have hcompletes := (hagrees _ _).2 ⟨result, hmeaning, rfl⟩
        cases result with
        | error cause =>
            cases h
            exact .failure hcompletes
        | returned inner => cases hreturned _ _ hmeaning
        | _ =>
            cases h
            exact .result hcompletes
    | error fault middle =>
        rw [hmeaning] at h
        cases h
  · cases h with
    | result hcompletes =>
        obtain ⟨result, hmeaning, hresult⟩ := (hagrees _ _).1 hcompletes
        change (settings.begin scope program machine).meaning settings.toHost = _ at hmeaning
        rw [hmeaning]
        cases result <;> cases hresult <;> rfl
    | failure hcompletes =>
        obtain ⟨result, hmeaning, hresult⟩ := (hagrees _ _).1 hcompletes
        change (settings.begin scope program machine).meaning settings.toHost = _ at hmeaning
        rw [hmeaning]
        cases result <;> cases hresult
        rfl

/-- The run of a source text in which conditionals with a `return` in a branch stand as statements
comes to a value exactly if the rules say so, and leaves the machine as they say: the same scopes
with the same bindings, the same console and the same trace. -/
theorem run_iff_concludes (source : String)
    (h : (Parse.ofSource source).program.branchesStand = true) (value : Value) (final : Machine) :
    settings.run globalScope (Parse.ofSource source).program .initial = .ok value final ↔
      settings.Concludes globalScope (Parse.ofSource source).program .initial value final := by
  have hprogram := Parse.wellFormed_ofSource source Numeral.usualLimit
  generalize (Parse.ofSource source).program = program at h hprogram ⊢
  have hplace := hprogram.inPlace h
  have hmachine : (settings.begin globalScope program .initial).machine.Tidy := by
    rw [Machine.Tidy, begin, Moment.store_trace]
    exact holds_initial _
  refine settings.run_iff_of_agrees ?_ ?_ value final
  · exact agrees_evaluate (callsAgree settings.toHost settings.depth) program hplace hmachine
  · intro value final hmeaning
    cases program with
    | program token statements => exact hmachine.isReturned_of_program hplace hmeaning
    | _ => exact hprogram.elim

/-- A run whose outcome shows a number has come to that number. -/
theorem exists_run_of_perform {program : Node} {number : Int} {text : String}
    (hresult : ((settings.run globalScope program).perform .initial).result.map Value.hashKey? =
      .ok (some (.integer number)))
    (hwritten : ((settings.run globalScope program).perform .initial).written = text) :
    ∃ final, settings.run globalScope program .initial = .ok (.integer number) final ∧
      final.console.written = text := by
  have hstart : { Machine.initial with console := .empty } = Machine.initial := rfl
  rw [Eval.perform, hstart] at hresult hwritten
  cases hrun : settings.run globalScope program .initial with
  | ok value final =>
      rw [hrun] at hresult hwritten
      have hkey : value.hashKey? = some (.integer number) := Except.ok.inj hresult
      cases value with
      | integer =>
          cases hkey
          exact ⟨final, rfl, hwritten⟩
      | _ => cases hkey
  | error fault final =>
      rw [hrun] at hresult
      cases hresult

/-- A program that keeps a function in an array and calls it later. The function returns out of a
conditional inside of a conditional, past the statements behind both. -/
def returnNested : String :=
  "let f = fn(x) \x7b if (x > 0) \x7b if (x > 5) \x7b return 1 \x7d println(x) return 2 \x7d " ++
    "3 \x7d; let fs = [f]; fs[0](7) + f(1) + f(0)"

theorem run_iff_concludes_returnNested :
    (Parse.ofSource returnNested).program.branchesStand = true ∧
      ∃ final, Settings.Concludes {} globalScope (Parse.ofSource returnNested).program .initial
        (.integer 6) final ∧ final.console.written = "1\n" := by
  have hstands : (Parse.ofSource returnNested).program.branchesStand = true := by decide +kernel
  obtain ⟨final, hrun, hwritten⟩ : ∃ final,
      Settings.run {} globalScope (Parse.ofSource returnNested).program .initial =
        .ok (.integer 6) final ∧ final.console.written = "1\n" :=
    exists_run_of_perform {} (by decide +kernel) (by decide +kernel)
  exact ⟨hstands, final, (run_iff_concludes {} returnNested hstands _ final).1 hrun, hwritten⟩

end Settings

end MonkeyLanguage
