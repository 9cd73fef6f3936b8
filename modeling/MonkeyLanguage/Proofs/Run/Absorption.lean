-- SUMMARY: An error anywhere in a run is what the run ends with, and nothing changes after it.
import MonkeyLanguage.Proofs.Run.Contents
import MonkeyLanguage.Proofs.Run.Nesting

/-!
# Errors end a run

No frame keeps an error. Once an evaluation inside a run has answered with one, the frames that
wait are left one after the other, and the machine stays as it is. So the error is the outcome of
everything around that evaluation.
-/

namespace MonkeyLanguage

/-- There is no error inside the value. -/
abbrev Value.ErrorFree : Value → Prop :=
  Value.Clean True fun _ _ => True

namespace Moment

variable {host : Host} {frames : List Frame} {depth : Nat} {machine : Machine}

/-! ## After an error -/

/-- Every frame hands an error on. -/
theorem step_error (host : Host) (cause : RuntimeError) (frame : Frame) (below : List Frame) :
    ∃ rest, step host ⟨.answer (.error cause), frame :: below, depth, machine⟩ =
      some ⟨.answer (.error cause), below, rest, machine⟩ := by
  cases frame <;> exact ⟨_, rfl⟩

theorem reaches_error (host : Host) (depth : Nat) (machine : Machine) (cause : RuntimeError)
    (own below : List Frame) :
    ∃ rest, Reaches host ⟨.answer (.error cause), own ++ below, depth, machine⟩
      ⟨.answer (.error cause), below, rest, machine⟩ := by
  induction own generalizing depth with
  | nil => exact ⟨depth, .refl⟩
  | cons frame own ih =>
      obtain ⟨between, hstep⟩ := step_error host cause frame (own ++ below)
      obtain ⟨rest, hrest⟩ := ih between
      exact ⟨rest, hrest.head hstep⟩

/-- After an error, all moments have that error and the same machine. -/
theorem Reaches.of_error {cause : RuntimeError} {later : Moment}
    (h : Reaches host ⟨.answer (.error cause), frames, depth, machine⟩ later) :
    later.control = .answer (.error cause) ∧ later.machine = machine := by
  induction h with
  | refl => exact ⟨rfl, rfl⟩
  | @tail between later _ hstep ih =>
      obtain ⟨control, frames, depth, machine⟩ := between
      obtain ⟨rfl, rfl⟩ := ih
      cases frames with
      | nil => cases hstep
      | cons frame below =>
          obtain ⟨rest, hnext⟩ := step_error host cause frame below
          obtain rfl := Option.some.inj (hnext.symm.trans hstep)
          exact ⟨rfl, rfl⟩

/-- What encloses an evaluation that ends with an error ends with that error. -/
theorem Encloses.meaning_error {outer nested : Moment} (h : outer.Encloses host nested)
    {cause : RuntimeError} {final : Machine}
    (hnested : nested.meaning host = .ok (.error cause) final) :
    outer.meaning host = .ok (.error cause) final := by
  obtain ⟨own, -, hrun⟩ := h
  have harrives : Reaches host { nested with frames := own }
      ⟨.answer (.error cause), own, nested.depth, final⟩ := arrives_of_ok hnested
  obtain ⟨rest, hend⟩ := reaches_error host nested.depth final cause own []
  rw [List.append_nil] at hend
  exact meaning_of_reaches_answer ((hrun.trans harrives).trans hend)

/-! ## Values without errors inside -/

/-- No error is kept anywhere at a moment: not by a name, an argument, an element or entry of a
finished or unfinished array or hash, or a returned value. -/
abbrev ErrorFree (moment : Moment) : Prop :=
  moment.Holds True fun _ _ => True

theorem ErrorFree.step {moment next : Moment} (h : moment.ErrorFree)
    (hstep : moment.step host = some next) : next.ErrorFree :=
  Holds.step h h.wantsClean (fun _ _ _ _ _ => trivial) hstep

theorem ErrorFree.reaches {moment later : Moment} (h : moment.ErrorFree)
    (hreaches : Reaches host moment later) : later.ErrorFree := by
  induction hreaches with
  | refl => exact h
  | tail _ hstep ih => exact ih.step hstep

end Moment

/-! ## Whole runs -/

namespace Settings

variable (settings : Settings) (scope : ScopeId) (program : Node) (machine : Machine)

/-- The first moment of a run. -/
def begin : Moment :=
  ⟨.evaluate scope program, [], settings.depth,
    machine.trace settings.traceLevel (.started program.statements.length)⟩

theorem run_eq :
    settings.run scope program machine =
      match (settings.begin scope program machine).meaning settings.toHost with
      | .ok (.error cause) final =>
        .ok (.error cause) (final.trace settings.traceLevel (.failed cause))
      | .ok value final => .ok value final
      | .error fault final => .error fault final := by
  have htrace : Eval.trace settings.traceLevel (.started program.statements.length) machine =
      .ok () (settings.begin scope program machine).machine := rfl
  simp only [Settings.run, bind, EStateM.bind, htrace]
  cases hmeaning : (settings.begin scope program machine).meaning settings.toHost with
  | ok value final =>
      have hevaluate : settings.evaluate scope program
          (settings.begin scope program machine).machine = .ok value final := hmeaning
      rw [hevaluate]
      cases value <;> rfl
  | error fault final =>
      have hevaluate : settings.evaluate scope program
          (settings.begin scope program machine).machine = .error fault final := hmeaning
      rw [hevaluate]

theorem meaning_of_run {value : Value} {final : Machine}
    (h : settings.run scope program machine = .ok value final) :
    ∃ middle, (settings.begin scope program machine).meaning settings.toHost =
      .ok value middle := by
  rw [run_eq] at h
  cases hmeaning : (settings.begin scope program machine).meaning settings.toHost with
  | ok result middle =>
      rw [hmeaning] at h
      cases result <;> cases h <;> exact ⟨_, rfl⟩
  | error fault middle =>
      rw [hmeaning] at h
      cases h

/-- What becomes of an error that an evaluation inside a run has for an answer: it is the answer
of every evaluation and call that is going on then, and of the whole run, and neither the scopes
nor the console change any more. -/
structure Absorbs (nested : Moment) (cause : RuntimeError) (final : Machine) : Prop where
  enclosing : ∀ outer : Moment, outer.GoesOn settings.toHost nested →
    outer.meaning settings.toHost = .ok (.error cause) final
  whole : ∃ last, settings.run scope program machine = .ok (.error cause) last ∧
    last.store = final.store ∧ last.console = final.console
  arises : Moment.Reaches settings.toHost (settings.begin scope program machine)
    ⟨.answer (.error cause), nested.frames, nested.depth, final⟩
  afterwards : ∀ later : Moment,
    Moment.Reaches settings.toHost
      ⟨.answer (.error cause), nested.frames, nested.depth, final⟩ later →
    later.control = .answer (.error cause) ∧ later.machine = final

/-- Errors are absorbed wherever they come up, and nothing ever keeps one. -/
theorem errors_absorbed :
    (∀ nested, Moment.Reaches settings.toHost (settings.begin scope program machine) nested →
      ∀ cause final, nested.meaning settings.toHost = .ok (.error cause) final →
        settings.Absorbs scope program machine nested cause final) ∧
    (machine.store.Holds Value.ErrorFree →
      ∀ moment, Moment.Reaches settings.toHost (settings.begin scope program machine) moment →
        moment.ErrorFree) := by
  refine ⟨fun nested hnested cause final hmeaning => ⟨?_, ?_, ?_, ?_⟩, ?_⟩
  · intro outer houter
    exact houter.encloses.meaning_error hmeaning
  · have hrun := (Moment.encloses_of_reaches hnested).meaning_error hmeaning
    refine ⟨final.trace settings.traceLevel (.failed cause), ?_, ?_, ?_⟩
    · rw [run_eq]
      change (settings.begin scope program machine).meaning settings.toHost = _ at hrun
      rw [hrun]
    · exact Moment.store_trace _ _
    · exact Moment.console_trace _ _
  · exact hnested.trans (Moment.arrives_of_ok hmeaning)
  · intro later hlater
    exact hlater.of_error
  · intro hmachine moment hmoment
    have hstore : (settings.begin scope program machine).machine.store.Holds Value.ErrorFree := by
      rw [begin, Moment.store_trace]
      exact hmachine
    have hbegin : (settings.begin scope program machine).ErrorFree := ⟨hstore, nofun, trivial⟩
    exact hbegin.reaches hmoment

/-- A program that puts a name without a value into an array. -/
def unknownElement : Node :=
  .program default [.expressionStatement default (.array default [.identifier default "x"])]

theorem holds_initial (good : Value → Prop) : Machine.initial.store.Holds good :=
  (Store.holds_empty good).addScope none

/-- The run of that program ends with the error of the name, and keeps it nowhere. -/
theorem errors_absorbed_unknownElement :
    (∃ nested, Moment.Reaches {} (Settings.begin {} 0 unknownElement .initial) nested ∧
      nested.meaning {} = .ok (.error (.unknownName "x")) .initial ∧
      Settings.Absorbs {} 0 unknownElement .initial nested (.unknownName "x") .initial) ∧
    Machine.initial.store.Holds Value.ErrorFree ∧
    ∀ moment, Moment.Reaches {} (Settings.begin {} 0 unknownElement .initial) moment →
      moment.ErrorFree := by
  have hreaches : Moment.Reaches {} (Settings.begin {} 0 unknownElement .initial)
      ⟨.evaluate 0 (.identifier default "x"), [.item 0 .elements [] [], .next 0 [], .receive], 300,
        .initial⟩ :=
    .head rfl (.head rfl (.single rfl))
  have hmeaning : Moment.meaning {}
      ⟨.evaluate 0 (.identifier default "x"), [.item 0 .elements [] [], .next 0 [], .receive], 300,
        .initial⟩ = .ok (.error (.unknownName "x")) .initial := rfl
  have habsorbed := errors_absorbed {} 0 unknownElement .initial
  exact ⟨⟨_, hreaches, hmeaning, habsorbed.1 _ hreaches _ _ hmeaning⟩, holds_initial _,
    habsorbed.2 (holds_initial _)⟩

end Settings

end MonkeyLanguage
