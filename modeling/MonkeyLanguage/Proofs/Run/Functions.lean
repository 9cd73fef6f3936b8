-- SUMMARY: Which functions of a run are read back from their printed form.
import MonkeyLanguage.Proofs.Canonical.Functions
import MonkeyLanguage.Proofs.Run.Absorption
import MonkeyLanguage.Proofs.Run.Orderly

/-!
# Functions of a run

The code of a function is a part of a program that was read, so it can be written down. Whether the
printed form of the function is read back as the function is then a matter of its body alone, which
is printed without the semicolons that expressions need before the next statement.
-/

namespace MonkeyLanguage

theorem Value.Answer.code {returns : Prop} {code : List Node → Node → Prop} {identity : Nat}
    {parameters : List Node} {body : Node} {scope : ScopeId}
    (h : (closure identity parameters body scope).Answer returns code) : code parameters body := by
  rcases h with herror | hclean
  · cases herror
  · cases hclean with
    | closure hcode => exact hcode

namespace Moment

variable {limit : Numeral.DigitLimit} {host : Host}

/-- All functions that are around at a moment can be written down, and so can all code that is still
to be evaluated. -/
structure Written (limit : Numeral.DigitLimit) (moment : Moment) : Prop where
  holds : moment.Holds True (WrittenCode limit)
  shaped : moment.Shaped (WellFormed limit)
  made : ∀ scope token parameters body,
    moment.control = .evaluate scope (.function token parameters body) →
    WrittenCode limit parameters body

theorem Written.step {moment next : Moment} (h : moment.Written limit)
    (hstep : moment.step host = some next) : next.Written limit := by
  have hplaced : next.Placed (WellFormed limit) :=
    h.shaped.placed_step (h.holds.mono fun _ _ hcode => hcode.2) hstep
  refine ⟨h.holds.step h.holds.wantsClean h.made hstep,
    hplaced.shaped (hereditary_wellFormed limit), ?_⟩
  intro scope token parameters body hcontrol
  have hnode := hplaced.control
  rw [hcontrol] at hnode
  rcases hnode with hnode | hnode | hnode <;> cases hnode
  exact ⟨‹_›, ‹_›⟩

theorem Written.reaches {moment later : Moment} (h : moment.Written limit)
    (hreaches : Reaches host moment later) : later.Written limit := by
  induction hreaches with
  | refl => exact h
  | tail _ hstep ih => exact ih.step hstep

/-- The code of a function that is an answer can be written down. -/
theorem Written.of_answer {moment : Moment} (h : moment.Written limit) {identity : Nat}
    {parameters : List Node} {body : Node} {scope : ScopeId}
    (hcontrol : moment.control = .answer (.closure identity parameters body scope)) :
    WrittenCode limit parameters body := by
  have hanswer := h.holds.control
  rw [hcontrol] at hanswer
  exact hanswer.code

end Moment

/-- The parameters and the body of a program that is a function and nothing else. -/
def Node.soleFunction? : Node → Option (List Node × Node)
  | .program _ [.expressionStatement _ (.function _ parameters body)] => some (parameters, body)
  | _ => none

namespace Settings

theorem written_begin (settings : Settings) (scope : ScopeId) (source : String)
    (limit : Numeral.DigitLimit) {machine : Machine}
    (hmachine : machine.store.Holds (Value.Clean True (WrittenCode limit))) :
    (settings.begin scope (Parse.ofSource source limit).program machine).Written limit := by
  have hprogram := Parse.wellFormed_ofSource source limit
  generalize (Parse.ofSource source limit).program = program at hprogram ⊢
  cases program with
  | program token statements =>
      refine ⟨⟨?_, nofun, trivial⟩, ⟨List.forall_mem_map.2 hprogram, nofun⟩, nofun⟩
      rw [begin, Moment.store_trace]
      exact hmachine
  | _ => exact hprogram.elim

/-- Each function that there is at any moment of a run prints as a text that is read without errors
as that function and nothing else exactly if, in its body, no statement that starts with a bracket
is behind an expression. The functions that the scopes have when the run starts must be such that
they can be written down. -/
theorem functions_readBack (settings : Settings) (scope : ScopeId) (source : String)
    (limit : Numeral.DigitLimit) (machine : Machine)
    (hmachine : machine.store.Holds (Value.Clean True (WrittenCode limit))) (moment : Moment)
    (hmoment : Moment.Reaches settings.toHost
      (settings.begin scope (Parse.ofSource source limit).program machine) moment) :
    moment.Holds True fun parameters body =>
      WrittenCode limit parameters body ∧
        (ReadsBack limit (Value.inspectFunction parameters body)
            (.functionProgram parameters body) ↔ LinesApart body.statements) := by
  have hbegin := settings.written_begin scope source limit hmachine
  exact (hbegin.reaches hmoment).holds.mono fun _ _ hcode =>
    ⟨hcode, hcode.readsBack_inspectFunction⟩

/-- Running such a program gets to that function. -/
theorem reaches_closure {program : Node} {parameters : List Node} {body : Node}
    (h : program.soleFunction? = some (parameters, body)) :
    Moment.Reaches {} (begin {} globalScope program .initial)
      ⟨.answer (.closure 0 parameters body globalScope), [.next globalScope [], .receive], 300,
        { Machine.initial with closures := 1 }⟩ := by
  unfold Node.soleFunction? at h
  split at h
  · cases h
    exact .head rfl (.head rfl (.single rfl))
  · cases h

/-- A source that is a function with a negative number behind a `let`. -/
def negativeResult : String := "fn(x) \x7b let y = x; -y \x7d"

theorem functions_readBack_negativeResult :
    Machine.initial.store.Holds (Value.Clean True (WrittenCode Numeral.usualLimit)) ∧
    ∃ parameters body moment, Moment.Reaches {}
        (begin {} globalScope (Parse.ofSource negativeResult).program .initial) moment ∧
      moment.control = .answer (.closure 0 parameters body globalScope) ∧
      ReadsBack Numeral.usualLimit (Value.inspectFunction parameters body)
        (.functionProgram parameters body) := by
  have hmachine := holds_initial (Value.Clean True (WrittenCode Numeral.usualLimit))
  have hchecked : (Parse.ofSource negativeResult).program.soleFunction?.any (fun function =>
      decide (LinesApart function.2.statements)) = true := by decide +kernel
  obtain ⟨⟨parameters, body⟩, hfunction, hapart⟩ := (Option.any_eq_true _ _).1 hchecked
  have hreaches := reaches_closure hfunction
  refine ⟨hmachine, parameters, body, _, hreaches, rfl, ?_⟩
  have hholds := functions_readBack {} globalScope negativeResult Numeral.usualLimit .initial
    hmachine _ hreaches
  exact hholds.control.code.2.2 (of_decide_eq_true hapart)

/-- A source that is a function with a negative number behind a name. -/
def negativeAfterName : String := "fn() \x7b a; -b \x7d"

/-- That function prints as one that calls what the name stands for with the negative number. -/
theorem not_readsBack_negativeAfterName :
    (Parse.ofSource negativeAfterName).errors = [] ∧
    ∃ parameters body moment, Moment.Reaches {}
        (begin {} globalScope (Parse.ofSource negativeAfterName).program .initial) moment ∧
      moment.control = .answer (.closure 0 parameters body globalScope) ∧
      ¬ ReadsBack Numeral.usualLimit (Value.inspectFunction parameters body)
        (.functionProgram parameters body) := by
  have hchecked : (Parse.ofSource negativeAfterName).program.soleFunction?.any (fun function =>
      !decide (LinesApart function.2.statements)) = true := by decide +kernel
  obtain ⟨⟨parameters, body⟩, hfunction, hjoined⟩ := (Option.any_eq_true _ _).1 hchecked
  have herrors : (Parse.ofSource negativeAfterName).errors.isEmpty = true := by decide +kernel
  have hreaches := reaches_closure hfunction
  refine ⟨List.isEmpty_iff.1 herrors, parameters, body, _, hreaches, rfl, ?_⟩
  intro hback
  have hbegin := written_begin {} globalScope negativeAfterName Numeral.usualLimit
    (holds_initial (Value.Clean True (WrittenCode Numeral.usualLimit)))
  have hapart := ((hbegin.reaches hreaches).of_answer rfl).readsBack_inspectFunction.1 hback
  rw [decide_eq_true hapart] at hjoined
  cases hjoined

end Settings

end MonkeyLanguage
