-- SUMMARY: When a run keeps its returned values inside of calls and out of places that want values.
import MonkeyLanguage.Proofs.Run.Absorption
import MonkeyLanguage.Proofs.Run.Orderly
import MonkeyLanguage.Proofs.Run.Waiting

/-!
# Where returned values end

A returned value is meant to end at the call that it leaves, or at the end of the program. A run
may break this: a conditional can stand where a value is wanted, and a `return` in one of its
branches makes it come out as a returned value. That is the only way. As long as no conditional
in such a place does so, nothing else lets a returned value out.
-/

namespace MonkeyLanguage

/-- Whether a frame uses the value that it wants. A `return` only sends it up. -/
def Frame.usesValue : Frame → Bool
  | send => false
  | frame => frame.wantsValue

/-- There is neither an error nor a returned value inside the value. -/
abbrev Value.SignalFree : Value → Prop :=
  Value.Clean False fun _ _ => True

namespace Moment

variable {limit : Numeral.DigitLimit} {returns : Prop} {host : Host} {frames : List Frame}
  {depth : Nat} {machine : Machine}

/-- All that is around at a moment of the run of a well-formed program is as it should be. -/
structure InOrder (limit : Numeral.DigitLimit) (returns : Prop) (moment : Moment) : Prop where
  holds : moment.Holds returns fun _ body => WellFormed limit (.block body)
  shaped : moment.Shaped (WellFormed limit)
  orderly : moment.Orderly returns

theorem InOrder.step {moment next : Moment} (h : moment.InOrder limit returns)
    (hbranch : moment.BranchQuiet returns) (hstep : moment.step host = some next) :
    next.InOrder limit returns := by
  obtain ⟨hholds, hshaped, horderly⟩ := h
  refine ⟨hholds.step (horderly.wantsClean hholds) ?_ hstep,
    hshaped.step (hereditary_wellFormed limit) hholds hstep,
    horderly.step hshaped hbranch hholds hstep⟩
  intro scope token parameters body hcontrol
  have hparts := hshaped.control
  rw [hcontrol] at hparts
  exact List.forall_mem_singleton.1 hparts

theorem InOrder.reaches {first later : Moment} (h : first.InOrder limit returns)
    (hbranch : ∀ moment, Reaches host first moment → moment.BranchQuiet returns)
    (hreaches : Reaches host first later) : later.InOrder limit returns := by
  induction hreaches with
  | refl => exact h
  | @tail middle _ hmiddle hstep ih => exact ih.step (hbranch middle hmiddle) hstep

/-- If returned values are allowed everywhere, all is in order anyway. -/
theorem InOrder.reaches_allowed {first later : Moment} (h : first.InOrder limit True)
    (hreaches : Reaches host first later) : later.InOrder limit True :=
  h.reaches (fun _ _ _ _ _ _ _ _ => trivial) hreaches

end Moment

namespace Settings

variable (settings : Settings) (program : Node)

theorem inOrder_begin {limit : Numeral.DigitLimit} {program : Node} (returns : Prop)
    (h : WellFormedProgram limit program) :
    (settings.begin globalScope program .initial).InOrder limit returns := by
  cases program with
  | program token statements =>
      refine ⟨⟨?_, nofun, trivial⟩, ⟨List.forall_mem_map.2 h, nofun⟩, trivial, nofun, fun _ => rfl⟩
      rw [begin, Moment.store_trace]
      exact holds_initial _
  | _ => exact h.elim

/-- The law of returned values: none is the outcome of the run or of a call in it, and none
arrives where a value is used or is kept anywhere. -/
structure ReturnsEnd : Prop where
  result : ∀ value final, settings.run globalScope program .initial = .ok value final →
    value.isReturned = false
  calls : ∀ function arguments frames depth machine,
    Moment.Reaches settings.toHost (settings.begin globalScope program .initial)
      ⟨.call function arguments, frames, depth, machine⟩ →
    ∀ value final, apply settings.toHost depth function arguments machine = .ok value final →
      value.isReturned = false
  uses : ∀ value frame below depth machine,
    Moment.Reaches settings.toHost (settings.begin globalScope program .initial)
      ⟨.answer value, frame :: below, depth, machine⟩ →
    frame.usesValue = true → value.isReturned = false
  kept : ∀ moment : Moment,
    Moment.Reaches settings.toHost (settings.begin globalScope program .initial) moment →
    moment.machine.store.Holds Value.SignalFree ∧
      (∀ frame ∈ moment.frames, ∀ value ∈ frame.values, value.SignalFree) ∧
      ∀ function arguments, moment.control = .call function arguments →
        ∀ argument ∈ arguments, argument.SignalFree

/-- No conditional that stands where a value is wanted comes out as a returned value. -/
def ConditionalsAnswer : Prop :=
  ∀ scope token condition consequence alternative frame below depth machine,
    Moment.Reaches settings.toHost (settings.begin globalScope program .initial)
      ⟨.evaluate scope (.conditional token condition consequence alternative), frame :: below,
        depth, machine⟩ →
    frame.wantsValue = true →
    ∀ value final,
      MonkeyLanguage.evaluate settings.toHost (apply settings.toHost depth) scope
        (.conditional token condition consequence alternative) machine = .ok value final →
      value.isReturned = false

end Settings

namespace Moment

variable {host : Host} {frames : List Frame} {depth : Nat} {machine final : Machine} {value : Value}

/-! ## Received values -/

/-- What a program computes was received from one of its statements. -/
theorem exists_received_of_program {scope : ScopeId} {token : Token} {statements : List Node}
    (h : evaluate host (apply host depth) scope (.program token statements) machine =
      .ok value final) :
    ∃ inner, value = inner.received ∧
      Reaches host ⟨.evaluate scope (.program token statements), frames, depth, machine⟩
        ⟨.answer inner, .receive :: frames, depth, final⟩ := by
  rw [evaluate] at h
  obtain ⟨inner, middle, hresult, hreceived⟩ := Eval.ok_of_bind h
  cases hreceived
  have harrives := arrives_sequence (callsArrive host depth) scope .null statements
    (.receive :: frames) machine
  rw [after_of_ok hresult] at harrives
  exact ⟨inner, rfl, harrives.head rfl⟩

/-- What a call computes is no returned value, or it was received from the body of a function. -/
theorem exists_received_of_apply {function : Value} {arguments : List Value}
    (h : apply host depth function arguments machine = .ok value final)
    (hreturned : value.isReturned = true) :
    ∃ inner rest, value = inner.received ∧
      Reaches host ⟨.call function arguments, frames, depth, machine⟩
        ⟨.answer inner, .body :: frames, rest, final⟩ := by
  cases function with
  | closure identity parameters body scope =>
      cases depth with
      | zero =>
          rw [apply, applyWith_closure] at h
          split at h
          case isTrue =>
            cases h
            cases hreturned
          case isFalse =>
            obtain ⟨inner, middle, -, hbody⟩ := Eval.ok_of_bind h
            obtain ⟨_, _, hlimit, -⟩ := Eval.ok_of_bind hbody
            cases hlimit
      | succ depth =>
          rw [apply, applyWith_closure] at h
          split at h
          case isTrue =>
            cases h
            cases hreturned
          case isFalse hcount =>
            obtain ⟨inner, middle, henter, hbody⟩ := Eval.ok_of_bind h
            obtain ⟨result, last, hresult, hreceived⟩ := Eval.ok_of_bind hbody
            cases hreceived
            have hcall : step host ⟨.call (.closure identity parameters body scope) arguments,
                frames, depth + 1, machine⟩ =
                some ⟨.evaluate inner body, .body :: frames, depth, middle⟩ := by
              rw [step, enter, if_neg hcount, henter]
              rfl
            exact ⟨result, depth, rfl, .head hcall (arrives_of_ok hresult)⟩
  | builtin builtin =>
      have hcall : Eval.callBuiltin host builtin arguments machine = .ok value final := by
        cases depth <;> exact h
      rw [Value.isReturned_of_callBuiltin hcall] at hreturned
      cases hreturned
  | _ =>
      cases depth <;> cases h <;> cases hreturned

end Moment

namespace Settings

variable {settings : Settings} {program : Node}

theorem ConditionalsAnswer.branchQuiet (h : settings.ConditionalsAnswer program) {moment : Moment}
    (hmoment : Moment.Reaches settings.toHost (settings.begin globalScope program .initial)
      moment) : moment.BranchQuiet False := by
  obtain ⟨control, frames, depth, machine⟩ := moment
  rintro value below rfl rfl hwanted hreturned
  obtain ⟨scope, token, condition, consequence, alternative, rest, start, houter, hmeaning⟩ :=
    Moment.meaning_of_branch rfl hmoment
  cases below with
  | nil => cases hwanted
  | cons frame below =>
      have hplain := h _ _ _ _ _ _ _ _ _ houter hwanted _ _ hmeaning
      rw [hreturned] at hplain
      cases hplain

theorem ConditionalsAnswer.inOrder {limit : Numeral.DigitLimit}
    (h : settings.ConditionalsAnswer program) (hprogram : WellFormedProgram limit program)
    {moment : Moment}
    (hmoment : Moment.Reaches settings.toHost (settings.begin globalScope program .initial)
      moment) : moment.InOrder limit False :=
  (settings.inOrder_begin False hprogram).reaches (fun _ hreaches => h.branchQuiet hreaches) hmoment

theorem ConditionalsAnswer.returnsEnd {limit : Numeral.DigitLimit}
    (h : settings.ConditionalsAnswer program) (hprogram : WellFormedProgram limit program) :
    settings.ReturnsEnd program where
  result value final hrun := by
    cases hreturned : value.isReturned with
    | false => rfl
    | true =>
        cases program with
        | program token statements =>
            obtain ⟨middle, hmeaning⟩ := settings.meaning_of_run _ _ _ hrun
            obtain ⟨inner, rfl, hinner⟩ := Moment.exists_received_of_program hmeaning
            have horder := h.inOrder hprogram hinner
            exact (horder.holds.control.of_isReturned_received hreturned).elim
        | _ => exact hprogram.elim
  calls function arguments frames depth machine hcall value final happly := by
    cases hreturned : value.isReturned with
    | false => rfl
    | true =>
        obtain ⟨inner, rest, rfl, hinner⟩ := Moment.exists_received_of_apply happly hreturned
        have horder := h.inOrder hprogram (hcall.trans hinner)
        exact (horder.holds.control.of_isReturned_received hreturned).elim
  uses value frame below depth machine hanswer huses := by
    cases hreturned : value.isReturned with
    | false => rfl
    | true =>
        have hwants : frame.wantsValue = true := by
          cases frame <;> first | exact huses | cases huses
        exact ((h.inOrder hprogram hanswer).orderly.control hwants hreturned).elim
  kept moment hmoment := by
    have hholds := (h.inOrder hprogram hmoment).holds
    have hfree {value : Value} {code : List Node → Node → Prop}
        (hvalue : value.Clean False code) : value.SignalFree := hvalue.mono fun _ _ _ => trivial
    refine ⟨fun scope hscope entry hentry => hfree (hholds.store scope hscope entry hentry),
      fun frame hframe value hvalue => hfree (hholds.frames frame hframe value hvalue), ?_⟩
    intro function arguments hcontrol argument hargument
    have hcall := hholds.control
    rw [hcontrol] at hcall
    exact hfree (hcall.2 argument hargument)

/-- A returned value that no frame waits for is the outcome of the run. -/
theorem ReturnsEnd.not_at_end (h : settings.ReturnsEnd program) {value : Value} {depth : Nat}
    {machine : Machine} :
    ¬ Moment.Reaches settings.toHost (settings.begin globalScope program .initial)
      ⟨.answer (.returned value), [], depth, machine⟩ := by
  intro hreaches
  have hmeaning : (settings.begin globalScope program .initial).meaning settings.toHost =
      .ok (.returned value) machine := Moment.meaning_of_reaches_answer hreaches
  have hrun : settings.run globalScope program .initial = .ok (.returned value) machine := by
    rw [run_eq, hmeaning]
  cases h.result _ _ hrun

/-- Under the law, no value is returned twice: whatever sends it up would let it out. -/
theorem ReturnsEnd.not_twice {limit : Numeral.DigitLimit} (h : settings.ReturnsEnd program)
    (hprogram : WellFormedProgram limit program) {frames : List Frame} {value : Value}
    {depth : Nat} {machine : Machine} :
    ¬ Moment.Reaches settings.toHost (settings.begin globalScope program .initial)
      ⟨.answer (.returned (.returned value)), frames, depth, machine⟩ := by
  induction frames generalizing value depth with
  | nil => exact h.not_at_end
  | cons frame below ih =>
      intro hreaches
      cases frame with
      | receive =>
          have horder := (settings.inOrder_begin True hprogram).reaches_allowed hreaches
          obtain rfl := horder.orderly.stacked.2.1 rfl
          exact h.not_at_end (hreaches.tail rfl)
      | next => exact ih (hreaches.tail rfl)
      | send => exact ih (hreaches.tail rfl)
      | branch => exact ih (hreaches.tail rfl)
      | body =>
          obtain ⟨function, arguments, rest, start, hcall, happly⟩ :=
            Moment.meaning_of_body rfl hreaches
          cases h.calls _ _ _ _ _ hcall _ _ happly
      | _ => cases h.uses _ _ _ _ _ hreaches rfl

theorem ReturnsEnd.conditionalsAnswer {limit : Numeral.DigitLimit}
    (h : settings.ReturnsEnd program) (hprogram : WellFormedProgram limit program) :
    settings.ConditionalsAnswer program := by
  intro scope token condition consequence alternative frame below depth machine hreaches hwants
    value final hmeaning
  have hanswer := hreaches.trans (Moment.arrives_of_ok hmeaning)
  cases value with
  | returned value =>
      cases frame with
      | send => exact (h.not_twice hprogram (hanswer.tail rfl)).elim
      | receive => cases hwants
      | next => cases hwants
      | branch => cases hwants
      | body => cases hwants
      | _ => cases h.uses _ _ _ _ _ hanswer rfl
  | _ => rfl

end Settings

end MonkeyLanguage
