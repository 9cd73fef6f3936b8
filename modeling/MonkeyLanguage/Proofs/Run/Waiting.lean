-- SUMMARY: The evaluations that the frames of conditionals and calls belong to.
import MonkeyLanguage.Proofs.Run.Nesting

/-!
# What frames wait for

A frame on the stack belongs to an evaluation that is still going on. For the frames of
conditionals and of calls this module finds the moment when that evaluation began, so that what
gets back to such a frame can be told from what the conditional or the call computes.
-/

namespace MonkeyLanguage

/-- Whether a frame belongs to a conditional or to a call. -/
def Frame.isOwned : Frame → Bool
  | condition .. => true
  | branch => true
  | body => true
  | _ => false

def Frame.isCondition : Frame → Bool
  | condition .. => true
  | _ => false

def Node.isConditional : Node → Bool
  | conditional .. => true
  | _ => false

/-- The evaluation that a frame of a conditional or of a call belongs to. -/
inductive Control.Owns : Control → Frame → Prop where
  | condition {scope : ScopeId} {token : Token} {condition consequence alternative : Node} :
      Owns (.evaluate scope (.conditional token condition consequence alternative))
        (.condition scope consequence alternative)
  | branch {scope : ScopeId} {token : Token} {condition consequence alternative : Node} :
      Owns (.evaluate scope (.conditional token condition consequence alternative)) .branch
  | body {function : Value} {arguments : List Value} : Owns (.call function arguments) .body

theorem Control.Owns.isEnd {control : Control} {frame : Frame} (h : control.Owns frame) :
    control.isEnd = false := by
  cases h <;> rfl

theorem Control.Owns.of_condition {control : Control} {scope : ScopeId}
    {consequence alternative : Node}
    (h : control.Owns (.condition scope consequence alternative)) : control.Owns .branch := by
  cases h
  exact .branch

namespace Moment

variable {host : Host} {frames : List Frame} {depth : Nat} {machine : Machine}

/-! ## New frames -/

/-- The moment has the given frames, below others that belong to no conditional or call. -/
def PushesFree (frames : List Frame) (moment : Moment) : Prop :=
  ∃ fresh, moment.frames = fresh ++ frames ∧ ∀ frame ∈ fresh, frame.isOwned = false

theorem pushesFree_none {moment : Moment} (h : moment.frames = frames) :
    PushesFree frames moment :=
  ⟨[], h, nofun⟩

theorem pushesFree_one {moment : Moment} {frame : Frame} (h : moment.frames = frame :: frames)
    (hframe : frame.isOwned = false) : PushesFree frames moment :=
  ⟨[frame], h, by simpa using hframe⟩

theorem PushesFree.of_cons {moment : Moment} {frame : Frame}
    (h : PushesFree (frame :: frames) moment) (hframe : frame.isOwned = false) :
    PushesFree frames moment := by
  obtain ⟨fresh, hfresh, hfree⟩ := h
  refine ⟨fresh ++ [frame], by simpa using hfresh, fun other hother => ?_⟩
  rcases List.mem_append.1 hother with hother | hother
  · exact hfree other hother
  · rw [List.mem_singleton.1 hother]
    exact hframe

/-- A frame of a conditional or of a call that is there now was there before. -/
theorem PushesFree.exists_frames {moment : Moment} (h : PushesFree frames moment)
    {own below : List Frame} {frame : Frame} (hframes : moment.frames = own ++ frame :: below)
    (howned : frame.isOwned = true) : ∃ before, frames = before ++ frame :: below := by
  obtain ⟨fresh, hfresh, hfree⟩ := h
  have happend := List.append_eq_append_iff.1 (hfresh.symm.trans hframes)
  rcases happend with ⟨before, -, h⟩ | ⟨rest, h, hrest⟩
  · exact ⟨before, h⟩
  · cases rest with
    | nil => exact ⟨[], hrest.symm⟩
    | cons first rest =>
        rw [List.cons_append, List.cons.injEq] at hrest
        have hnot := hfree frame (by simp [h, hrest.1])
        rw [howned] at hnot
        cases hnot

theorem frames_after (computation : Eval Value) :
    (after frames depth machine computation).frames = frames := by
  unfold after
  cases computation machine <;> rfl

theorem pushesFree_sequence (scope : ScopeId) (last : Value) (statements : List Node) :
    PushesFree frames (sequence frames depth machine scope last statements) := by
  cases statements with
  | nil => exact pushesFree_none rfl
  | cons statement rest => exact pushesFree_one rfl rfl

theorem pushesFree_collect (scope : ScopeId) (collector : Collector) (before : List Value)
    (nodes : List Node) :
    PushesFree frames (collect frames depth machine scope collector before nodes) := by
  cases nodes with
  | nil => cases collector <;> exact pushesFree_none rfl
  | cons node rest => exact pushesFree_one rfl rfl

theorem pushesFree_gather (scope : ScopeId) (entries : List (HashKey × Value))
    (pairs : List (Node × Node)) :
    PushesFree frames (gather frames depth machine scope entries pairs) := by
  cases pairs with
  | nil => exact pushesFree_none rfl
  | cons pair rest => exact pushesFree_one rfl rfl

theorem pushesFree_start (scope : ScopeId) (node : Node)
    (hnode : node.isConditional = false) :
    PushesFree frames (start frames depth machine scope node) := by
  cases node with
  | program token statements =>
      exact (pushesFree_sequence scope .null statements).of_cons rfl
  | conditional => cases hnode
  | expressionStatement => exact pushesFree_none rfl
  | block => exact pushesFree_sequence ..
  | identifier => exact pushesFree_none rfl
  | integer => exact pushesFree_none rfl
  | string => exact pushesFree_none rfl
  | boolean => exact pushesFree_none rfl
  | function => exact pushesFree_none (frames_after _)
  | array => exact pushesFree_collect ..
  | hash => exact pushesFree_gather ..
  | missing => exact pushesFree_none rfl
  | foreign => exact pushesFree_none rfl
  | _ => exact pushesFree_one rfl rfl

theorem pushesFree_resume (value : Value) {frame : Frame}
    (hframe : frame.isCondition = false) :
    PushesFree frames (resume host frames depth machine value frame) := by
  cases frame with
  | next scope rest =>
      simp only [resume]
      split
      · exact pushesFree_none rfl
      · exact pushesFree_sequence ..
  | bind => exact pushesFree_none (frames_after _)
  | left => exact pushesFree_one rfl rfl
  | condition => cases hframe
  | callee => exact pushesFree_collect ..
  | item => exact pushesFree_collect ..
  | key =>
      simp only [resume]
      split
      · exact pushesFree_none rfl
      · exact pushesFree_one rfl rfl
  | entry => exact pushesFree_gather ..
  | target => exact pushesFree_one rfl rfl
  | _ => exact pushesFree_none rfl

theorem Enters.frames_eq {function : Value} {arguments : List Value} {next : Moment}
    (h : Enters host frames machine arguments function depth next) :
    next.frames = frames ∨ next.frames = .body :: frames := by
  cases h with
  | builtin => exact .inl (frames_after _)
  | body => exact .inr rfl
  | _ => exact .inl rfl

theorem frames_resume_condition (value : Value) (scope : ScopeId) (consequence alternative : Node) :
    (resume host frames depth machine value (.condition scope consequence alternative)).frames =
        frames ∨
      (resume host frames depth machine value (.condition scope consequence alternative)).frames =
        .branch :: frames := by
  simp only [resume]
  split
  · exact .inr rfl
  · cases alternative with
    | missing => exact .inl rfl
    | _ => exact .inr rfl

/-- A frame of a conditional or of a call was there before, or it was pushed by a conditional or
call, or it takes the place of the frame of a condition. -/
theorem frames_of_step {moment next : Moment} (hstep : moment.step host = some next)
    {own below : List Frame} {frame : Frame} (hframes : next.frames = own ++ frame :: below)
    (howned : frame.isOwned = true) :
    (∃ before, moment.frames = before ++ frame :: below) ∨
      (moment.frames = below ∧ moment.control.Owns frame) ∨
      (frame = .branch ∧
        ∃ scope consequence alternative,
          moment.frames = .condition scope consequence alternative :: below) := by
  cases turns_of_step hstep with
  | start scope node =>
      cases node with
      | conditional token condition consequence alternative =>
          cases own with
          | nil =>
              obtain ⟨rfl, rfl⟩ := List.cons.inj hframes
              exact .inr (.inl ⟨rfl, .condition⟩)
          | cons first own =>
              obtain ⟨rfl, rfl⟩ := List.cons.inj hframes
              exact .inl ⟨own, rfl⟩
      | _ => exact .inl ((pushesFree_start scope _ rfl).exists_frames hframes howned)
  | enter henters =>
      rcases henters.frames_eq with h | h
      · exact .inl ⟨own, h.symm.trans hframes⟩
      · cases own with
        | nil =>
            obtain ⟨rfl, rfl⟩ := List.cons.inj (h.symm.trans hframes)
            exact .inr (.inl ⟨rfl, .body⟩)
        | cons first own =>
            obtain ⟨rfl, rfl⟩ := List.cons.inj (h.symm.trans hframes)
            exact .inl ⟨own, rfl⟩
  | @past _ waiting => exact .inl ⟨waiting :: own, congrArg (waiting :: ·) hframes⟩
  | resume value waiting =>
      cases waiting with
      | condition scope consequence alternative =>
          rcases frames_resume_condition value scope consequence alternative with h | h
          · exact .inl ⟨_ :: own, congrArg (_ :: ·) (h.symm.trans hframes)⟩
          · cases own with
            | nil =>
                obtain ⟨rfl, rfl⟩ := List.cons.inj (h.symm.trans hframes)
                exact .inr (.inr ⟨rfl, _, _, _, rfl⟩)
            | cons first own =>
                obtain ⟨rfl, rfl⟩ := List.cons.inj (h.symm.trans hframes)
                exact .inl ⟨_ :: own, rfl⟩
      | _ =>
          obtain ⟨before, hbefore⟩ := (pushesFree_resume value rfl).exists_frames hframes howned
          exact .inl ⟨_ :: before, congrArg (_ :: ·) hbefore⟩
  | unwind fault waiting => exact .inl ⟨waiting :: own, congrArg (waiting :: ·) hframes⟩

/-! ## Owners -/

/-- The evaluation that a frame of a conditional or of a call belongs to began in the run, and it
is going on while the frame is there. -/
theorem Reaches.exists_owner {first later : Moment} (h : Reaches host first later)
    (hfirst : first.frames = []) {own below : List Frame} {frame : Frame}
    (hframes : later.frames = own ++ frame :: below) (howned : frame.isOwned = true) :
    ∃ outer, Reaches host first outer ∧ outer.frames = below ∧ outer.control.Owns frame ∧
      outer.Encloses host later := by
  induction h generalizing own below frame with
  | refl =>
      rw [hfirst] at hframes
      simp at hframes
  | @tail middle later hmiddle hstep ih =>
      rcases frames_of_step hstep hframes howned with ⟨before, hbefore⟩ | ⟨hbelow, howns⟩ |
        ⟨rfl, scope, consequence, alternative, hcondition⟩
      · obtain ⟨outer, houter, rfl, howns, hencloses⟩ := ih hbefore howned
        refine ⟨outer, houter, rfl, howns, hencloses.tail (fun hsame => ?_) hstep⟩
        have hlength := congrArg List.length (hbefore.symm.trans hsame)
        simp only [List.length_append, List.length_cons] at hlength
        omega
      · refine ⟨middle, hmiddle, hbelow, howns, (encloses_self middle).tail (fun _ => ?_) hstep⟩
        exact howns.isEnd
      · have hframes : middle.frames = [] ++ .condition scope consequence alternative :: below :=
          hcondition
        obtain ⟨outer, houter, rfl, howns, hencloses⟩ := ih hframes rfl
        refine ⟨outer, houter, rfl, howns.of_condition, hencloses.tail (fun hsame => ?_) hstep⟩
        exact absurd (hcondition.symm.trans hsame) (by simp)

/-- What gets back to the frame of a conditional or call, and leaves it, is what the conditional
or call computes. -/
theorem exists_owner_meaning {first : Moment} (hfirst : first.frames = []) {frame : Frame}
    (howned : frame.isOwned = true) {value result : Value} {rest : Nat}
    (h : Reaches host first ⟨.answer value, frame :: frames, depth, machine⟩)
    (hstep : step host ⟨.answer value, [frame], depth, machine⟩ =
      some ⟨.answer result, [], rest, machine⟩) :
    ∃ outer, Reaches host first outer ∧ outer.frames = frames ∧ outer.control.Owns frame ∧
      outer.meaning host = .ok result machine := by
  have hframes : (Moment.mk (.answer value) (frame :: frames) depth machine).frames =
      [] ++ frame :: frames := rfl
  obtain ⟨outer, houter, rfl, howns, own, hown, hrun⟩ := h.exists_owner hfirst hframes howned
  obtain rfl : [frame] = own := List.append_cancel_right hown
  exact ⟨outer, houter, rfl, howns, meaning_of_reaches_answer (hrun.tail hstep)⟩

/-- What a branch hands up is what its conditional computes. -/
theorem meaning_of_branch {first : Moment} (hfirst : first.frames = []) {value : Value}
    (h : Reaches host first ⟨.answer value, .branch :: frames, depth, machine⟩) :
    ∃ scope token condition consequence alternative rest start,
      Reaches host first
        ⟨.evaluate scope (.conditional token condition consequence alternative), frames, rest,
          start⟩ ∧
      evaluate host (apply host rest) scope
        (.conditional token condition consequence alternative) start = .ok value machine := by
  obtain ⟨⟨control, frames, rest, start⟩, houter, rfl, howns, hmeaning⟩ :=
    exists_owner_meaning hfirst rfl h rfl
  cases howns with
  | branch => exact ⟨_, _, _, _, _, rest, start, houter, hmeaning⟩

/-- What a body leaves is, as it is received, what its call computes. -/
theorem meaning_of_body {first : Moment} (hfirst : first.frames = []) {value : Value}
    (h : Reaches host first ⟨.answer value, .body :: frames, depth, machine⟩) :
    ∃ function arguments rest start,
      Reaches host first ⟨.call function arguments, frames, rest, start⟩ ∧
      apply host rest function arguments start = .ok value.received machine := by
  obtain ⟨⟨control, frames, rest, start⟩, houter, rfl, howns, hmeaning⟩ :=
    exists_owner_meaning hfirst rfl h rfl
  cases howns with
  | body => exact ⟨_, _, rest, start, houter, hmeaning⟩

end Moment

end MonkeyLanguage
