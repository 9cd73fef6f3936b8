-- SUMMARY: Runs inside runs: where a run ends, and evaluations that others enclose.
import MonkeyLanguage.Proofs.Run.Arrival

/-!
# Evaluations inside each other

No step looks at the frames below the innermost one. So a run goes the same way on top of other
frames, and it comes back to them when it has run by itself to its end. An evaluation encloses a
moment if its own run, without the frames below it, passes through that moment.
-/

namespace MonkeyLanguage

/-- Whether there is nothing left to be worked on. -/
def Control.isEnd : Control → Bool
  | answer _ => true
  | fault _ => true
  | _ => false

namespace Moment

variable {host : Host} {frames : List Frame} {depth : Nat} {machine : Machine}

/-! ## The end of a run -/

/-- A run has one way to go. -/
theorem rightUnique_step (host : Host) :
    Relator.RightUnique fun moment next : Moment => moment.step host = some next := by
  intro moment next other hnext hother
  exact Option.some.inj (hnext.symm.trans hother)

theorem step_eq_none {moment : Moment} (h : moment.step host = none) :
    moment.frames = [] ∧ moment.control.isEnd = true := by
  obtain ⟨control, frames, depth, machine⟩ := moment
  cases control with
  | evaluate scope node => cases h
  | call function arguments => cases h
  | answer value =>
      cases frames with
      | nil => exact ⟨rfl, rfl⟩
      | cons frame below => cases h
  | fault fault =>
      cases frames with
      | nil => exact ⟨rfl, rfl⟩
      | cons frame below => cases h

theorem Reaches.eq_of_step_none {moment other : Moment} (h : Reaches host moment other)
    (hend : moment.step host = none) : moment = other := by
  rcases h.cases_head with heq | ⟨next, hnext, -⟩
  · exact heq
  · rw [hend] at hnext
    cases hnext

/-- A run has one end. -/
theorem Reaches.end_unique {moment last other : Moment} (hlast : Reaches host moment last)
    (hother : Reaches host moment other) (hlastEnd : last.step host = none)
    (hotherEnd : other.step host = none) : last = other := by
  rcases hlast.total_of_right_unique (rightUnique_step host) hother with h | h
  · exact Reaches.eq_of_step_none h hlastEnd
  · exact (Reaches.eq_of_step_none h hotherEnd).symm

/-- A run that is awaited by no frame ends with what it means. -/
theorem Reaches.eq_after {control : Control} {last : Moment}
    (h : Reaches host ⟨control, [], depth, machine⟩ last) (hend : last.step host = none) :
    last = after [] depth machine (control.meaning host depth) := by
  refine h.end_unique (arrives host ⟨control, [], depth, machine⟩) hend ?_
  simp only [after]
  cases control.meaning host depth machine <;> rfl

theorem meaning_of_reaches_answer {control : Control} {value : Value} {final : Machine}
    {rest : Nat}
    (h : Reaches host ⟨control, [], depth, machine⟩ ⟨.answer value, [], rest, final⟩) :
    control.meaning host depth machine = .ok value final := by
  have heq := h.eq_after rfl
  cases hmeaning : control.meaning host depth machine with
  | ok result middle =>
      rw [after_of_ok hmeaning] at heq
      cases heq
      rfl
  | error fault middle =>
      rw [after_of_error hmeaning] at heq
      cases heq

theorem meaning_of_reaches_fault {control : Control} {fault : Fault} {final : Machine} {rest : Nat}
    (h : Reaches host ⟨control, [], depth, machine⟩ ⟨.fault fault, [], rest, final⟩) :
    control.meaning host depth machine = .error fault final := by
  have heq := h.eq_after rfl
  cases hmeaning : control.meaning host depth machine with
  | ok result middle =>
      rw [after_of_ok hmeaning] at heq
      cases heq
  | error cause middle =>
      rw [after_of_error hmeaning] at heq
      cases heq
      rfl

/-! ## Frames below a run, and depth to spare -/

/-- The same moment with more frames below. -/
def above (moment : Moment) (below : List Frame) : Moment :=
  { moment with frames := moment.frames ++ below }

/-- The same moment with more frames below and more depth left. -/
def within (moment : Moment) (below : List Frame) (extra : Nat) : Moment :=
  { moment with frames := moment.frames ++ below, depth := moment.depth + extra }

section

variable (below : List Frame) (extra : Nat)

theorem within_after (computation : Eval Value) :
    (after frames depth machine computation).within below extra =
      after (frames ++ below) (depth + extra) machine computation := by
  unfold after
  cases computation machine <;> rfl

theorem within_sequence (scope : ScopeId) (last : Value) (statements : List Node) :
    (sequence frames depth machine scope last statements).within below extra =
      sequence (frames ++ below) (depth + extra) machine scope last statements := by
  cases statements <;> rfl

theorem within_collect (scope : ScopeId) (collector : Collector) (before : List Value)
    (nodes : List Node) :
    (collect frames depth machine scope collector before nodes).within below extra =
      collect (frames ++ below) (depth + extra) machine scope collector before nodes := by
  cases nodes with
  | nil => cases collector <;> rfl
  | cons node rest => rfl

theorem within_gather (scope : ScopeId) (entries : List (HashKey × Value))
    (pairs : List (Node × Node)) :
    (gather frames depth machine scope entries pairs).within below extra =
      gather (frames ++ below) (depth + extra) machine scope entries pairs := by
  cases pairs <;> rfl

theorem within_otherwise (scope : ScopeId) (alternative : Node) :
    (otherwise frames depth machine scope alternative).within below extra =
      otherwise (frames ++ below) (depth + extra) machine scope alternative := by
  cases alternative <;> rfl

theorem within_start (scope : ScopeId) (node : Node) :
    (start frames depth machine scope node).within below extra =
      start (frames ++ below) (depth + extra) machine scope node := by
  cases node with
  | program => exact within_sequence ..
  | block => exact within_sequence ..
  | function => exact within_after ..
  | array => exact within_collect ..
  | hash => exact within_gather ..
  | _ => rfl

/-- Depth to spare makes a difference only where none is left. -/
theorem within_runBody (inner : ScopeId) (body : Node) (hroom : extra = 0 ∨ depth ≠ 0) :
    (runBody frames machine inner body depth).within below extra =
      runBody (frames ++ below) machine inner body (depth + extra) := by
  cases depth with
  | zero =>
      obtain rfl := hroom.resolve_right fun h => h rfl
      rfl
  | succ depth =>
      rw [Nat.succ_add]
      rfl

theorem within_enter (arguments : List Value) (function : Value)
    (hroom : extra = 0 ∨
      (enter host frames depth machine arguments function).control ≠ .fault .recursionLimit) :
    (enter host frames depth machine arguments function).within below extra =
      enter host (frames ++ below) (depth + extra) machine arguments function := by
  cases function with
  | closure identity parameters body scope =>
      simp only [enter] at hroom ⊢
      split
      · rfl
      · cases henter : Eval.enter host parameters scope arguments machine with
        | ok inner middle =>
            apply within_runBody
            refine hroom.imp_right fun hlimit => ?_
            rintro rfl
            simp_all [runBody]
        | error fault middle => rfl
  | builtin => exact within_after ..
  | _ => rfl

theorem within_resume (value : Value) (frame : Frame) :
    (resume host frames depth machine value frame).within below extra =
      resume host (frames ++ below) (depth + extra) machine value frame := by
  cases frame with
  | next scope rest =>
      simp only [resume]
      split
      · rfl
      · exact within_sequence ..
  | bind => exact within_after ..
  | condition scope consequence alternative =>
      simp only [resume]
      split
      · rfl
      · exact within_otherwise ..
  | callee => exact within_collect ..
  | item => exact within_collect ..
  | key =>
      simp only [resume]
      cases value.hashKey? <;> rfl
  | entry => exact within_gather ..
  | body =>
      rw [resume, resume, Nat.add_right_comm]
      rfl
  | _ => rfl

theorem within_arrive (value : Value) (frame : Frame) :
    (arrive host frames depth machine value frame).within below extra =
      arrive host (frames ++ below) (depth + extra) machine value frame := by
  unfold arrive
  split
  · rfl
  · exact within_resume ..

theorem within_unwind (fault : Fault) (frame : Frame) :
    (unwind frames depth machine fault frame).within below extra =
      unwind (frames ++ below) (depth + extra) machine fault frame := by
  cases frame with
  | body =>
      rw [unwind, unwind, Nat.add_right_comm]
      rfl
  | _ => rfl

/-- A step is the same step on top of other frames, and with more depth left unless it is one that
finds none. -/
theorem step_within {moment next : Moment} (h : moment.step host = some next)
    (hroom : extra = 0 ∨
      (next.control = .fault .recursionLimit → moment.control = .fault .recursionLimit)) :
    (moment.within below extra).step host = some (next.within below extra) := by
  obtain ⟨control, frames, depth, machine⟩ := moment
  cases control with
  | evaluate scope node =>
      obtain rfl := Option.some.inj h
      exact congrArg some (within_start ..).symm
  | call function arguments =>
      obtain rfl := Option.some.inj h
      refine congrArg some (within_enter below extra arguments function ?_).symm
      exact hroom.imp_right fun hlimit hcontrol => by cases hlimit hcontrol
  | answer value =>
      cases frames with
      | nil => cases h
      | cons frame frames =>
          obtain rfl := Option.some.inj h
          exact congrArg some (within_arrive ..).symm
  | fault fault =>
      cases frames with
      | nil => cases h
      | cons frame frames =>
          obtain rfl := Option.some.inj h
          exact congrArg some (within_unwind ..).symm

/-- A step is the same step on top of other frames. -/
theorem step_above {moment next : Moment} (h : moment.step host = some next) :
    (moment.above below).step host = some (next.above below) :=
  step_within below 0 h (.inl rfl)

theorem Reaches.above {moment later : Moment} (h : Reaches host moment later) :
    Reaches host (moment.above below) (later.above below) :=
  h.lift (fun moment => moment.above below) fun _ _ hstep => step_above below hstep

end

/-- The run of a moment's own evaluation, without the frames that wait for it, passes through
another moment. -/
def Encloses (host : Host) (outer inner : Moment) : Prop :=
  ∃ own, inner.frames = own ++ outer.frames ∧
    Reaches host { outer with frames := [] } { inner with frames := own }

theorem Encloses.reaches {outer inner : Moment} (h : Encloses host outer inner) :
    Reaches host outer inner := by
  obtain ⟨own, hframes, hrun⟩ := h
  have hrun := hrun.above outer.frames
  obtain ⟨control, frames, depth, machine⟩ := inner
  obtain rfl := hframes
  exact hrun

theorem encloses_self (moment : Moment) : Encloses host moment moment :=
  ⟨[], rfl, .refl⟩

/-- Without frames below it, a moment encloses all that come after it. -/
theorem encloses_of_reaches {inner : Moment} {control : Control}
    (h : Reaches host ⟨control, [], depth, machine⟩ inner) :
    Encloses host ⟨control, [], depth, machine⟩ inner :=
  ⟨inner.frames, (List.append_nil _).symm, h⟩

theorem Encloses.tail {outer inner next : Moment} (h : outer.Encloses host inner)
    (hgoing : inner.frames = outer.frames → inner.control.isEnd = false)
    (hstep : inner.step host = some next) : outer.Encloses host next := by
  obtain ⟨own, hframes, hrun⟩ := h
  cases halone : step host { inner with frames := own } with
  | none =>
      obtain ⟨rfl, hend⟩ := step_eq_none halone
      rw [hgoing hframes] at hend
      cases hend
  | some alone =>
      have habove := step_above outer.frames halone
      rw [above, ← hframes, hstep] at habove
      obtain rfl := Option.some.inj habove
      exact ⟨alone.frames, rfl, hrun.tail halone⟩

/-- A moment after another one. -/
abbrev Precedes (host : Host) : Moment → Moment → Prop :=
  Relation.TransGen fun moment next => moment.step host = some next

/-- The evaluation that starts at a moment is still going on at a later one: no value or fault
has come back to its frames in between. -/
def GoesOn (host : Host) (outer later : Moment) : Prop :=
  Reaches host outer later ∧
    ∀ between, Reaches host outer between → Precedes host between later →
      between.frames = outer.frames → between.control.isEnd = false

theorem GoesOn.encloses {outer later : Moment} (h : outer.GoesOn host later) :
    outer.Encloses host later := by
  obtain ⟨hreaches, hgoing⟩ := h
  induction hreaches with
  | refl => exact encloses_self outer
  | @tail inner later hinner hstep ih =>
      have hencloses := ih fun between hbetween hprecedes =>
        hgoing between hbetween (hprecedes.tail hstep)
      exact hencloses.tail (hgoing inner hinner (.single hstep)) hstep

end Moment

end MonkeyLanguage
