-- SUMMARY: Signals read as exits, and computations that do with signals what work does with exits.
import MonkeyLanguage.Proofs.Completion.Equations
import MonkeyLanguage.Proofs.Completion.Standing

/-!
# Signals as exits

A value that a computation yields stands for a completion, a signal for an exit and any other value
for itself. A computation realizes some work if what it yields, read in this way, is exactly how the
work can complete, with the same machine in the end.
-/

namespace MonkeyLanguage

open Behaviour

namespace Completion

/-- The completion that a value stands for: an exit if it is a signal, and else a result. -/
def ofValue : Value → Completion Value
  | .error cause => .abrupt (.failed cause)
  | .returned value => .abrupt (.returned value)
  | value => .normal value

/-- The completion that the values of several nodes stand for, or the first error among them. -/
def ofValues : Except RuntimeError (List Value) → Completion (List Value)
  | .ok values => .normal values
  | .error cause => .abrupt (.failed cause)

theorem ofValue_of_not_isSignal {value : Value} (h : value.isSignal = false) :
    ofValue value = .normal value := by
  cases value <;> first | rfl | cases h

theorem exists_exit_of_isSignal {value : Value} (h : value.isSignal = true) :
    ∃ exit, ofValue value = .abrupt exit := by
  cases value <;> first | exact ⟨_, rfl⟩ | cases h

theorem ofValue_eq_computed {value : Value} (h : value.isReturned = false) :
    ofValue value = computed value := by
  cases value <;> first | rfl | cases h

theorem ofValue_of_tidy {value : Value} (h : value.Tidy) : ofValue value = .normal value := by
  cases h <;> first | rfl | contradiction

/-- Where a `return` ends, it does not matter whether it came as a value or as an exit. -/
theorem ofValue_received {value : Value} (h : value.TidyAnswer) :
    ofValue value.received = (ofValue value).received := by
  rcases h with herror | hclean
  · cases value <;> first | rfl | cases herror
  · cases value with
    | returned inner => exact ofValue_of_tidy hclean
    | _ => rfl

end Completion

/-! ## Computations that do what work does -/

namespace Eval

variable {α β ω : Type} {decode : ω → Completion α} {machine : Machine}

/-- What the computation yields, read as a completion, is exactly how the work can complete. -/
def Realizes (decode : ω → Completion α) (computation : Eval ω) (work : Behaviour α)
    (machine : Machine) : Prop :=
  ∀ completion final, work machine completion final ↔
    ∃ result, computation machine = .ok result final ∧ completion = decode result

theorem realizes_of_ok {computation : Eval ω} {work : Behaviour α} {result : ω} {last : Machine}
    (h : computation machine = .ok result last)
    (hwork : ∀ completion final,
      work machine completion final ↔ completion = decode result ∧ final = last) :
    Realizes decode computation work machine := by
  intro completion final
  rw [hwork, h]
  refine ⟨fun ⟨hcompletion, hfinal⟩ => ⟨result, by rw [hfinal], hcompletion⟩, ?_⟩
  rintro ⟨_, hresult, rfl⟩
  cases hresult
  exact ⟨rfl, rfl⟩

theorem realizes_of_error {computation : Eval ω} {work : Behaviour α} {fault : Fault}
    {last : Machine} (h : computation machine = .error fault last)
    (hwork : ∀ completion final, ¬ work machine completion final) :
    Realizes decode computation work machine := by
  intro completion final
  rw [h]
  refine ⟨fun hcompletes => (hwork _ _ hcompletes).elim, ?_⟩
  rintro ⟨_, hresult, -⟩
  cases hresult

theorem realizes_pure (result : ω) :
    Realizes decode (pure result) (ends (decode result)) machine :=
  realizes_of_ok rfl fun _ _ => .rfl

theorem realizes_throw (fault : Fault) : Realizes decode (throw fault) stuck machine :=
  realizes_of_error rfl fun _ _ => id

variable {σ : Type} {decodeNext : σ → Completion β} {computation : Eval ω} {next : ω → Eval σ}
  {first : Behaviour α} {rest : α → Behaviour β}

/-- A computation goes on as work does if it does so after each result, and if it hands exits on. -/
theorem Realizes.bind (hfirst : Realizes decode computation first machine)
    (hnormal : ∀ result value middle, computation machine = .ok result middle →
      decode result = .normal value → Realizes decodeNext (next result) (rest value) middle)
    (habrupt : ∀ result exit middle, computation machine = .ok result middle →
      decode result = .abrupt exit →
      ∃ last, next result middle = .ok last middle ∧ decodeNext last = .abrupt exit) :
    Realizes decodeNext (computation >>= next) (first.andThen rest) machine := by
  refine fun completion final => ⟨fun h => ?_, fun h => ?_⟩
  · obtain ⟨value, middle, hvalue, hrest⟩ | ⟨exit, hexit, rfl⟩ := h
    · obtain ⟨result, hresult, hdecode⟩ := (hfirst _ _).1 hvalue
      rw [ok_bind hresult]
      exact (hnormal result value middle hresult hdecode.symm _ _).1 hrest
    · obtain ⟨result, hresult, hdecode⟩ := (hfirst _ _).1 hexit
      obtain ⟨last, hlast, hexit⟩ := habrupt result exit final hresult hdecode.symm
      rw [ok_bind hresult]
      exact ⟨last, hlast, hexit.symm⟩
  · obtain ⟨last, hlast, rfl⟩ := h
    obtain ⟨result, middle, hresult, hnext⟩ := ok_of_bind hlast
    cases hdecode : decode result with
    | normal value =>
        have hvalue := (hfirst (.normal value) middle).2 ⟨result, hresult, hdecode.symm⟩
        exact .inl ⟨value, middle, hvalue,
          (hnormal result value middle hresult hdecode _ _).2 ⟨last, hnext, rfl⟩⟩
    | abrupt exit =>
        obtain ⟨other, hother, hexit⟩ := habrupt result exit middle hresult hdecode
        cases hother.symm.trans hnext
        exact .inr ⟨exit, (hfirst (.abrupt exit) final).2 ⟨result, hresult, hdecode.symm⟩, hexit⟩

end Eval

end MonkeyLanguage
