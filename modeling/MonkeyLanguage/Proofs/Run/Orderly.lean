-- SUMMARY: Returned values stay out of places that want values, unless a branch hands one there.
import MonkeyLanguage.Proofs.Canonical.WellFormed
import MonkeyLanguage.Proofs.Run.Shapes

/-!
# The way of returned values

A `return` statement stands in a block, and a block is the body of a function, a branch of a
conditional, or the program. So a returned value goes from its statement through statements and
branches. It gets into a frame that wants a value only from a branch whose conditional stands
where a value is wanted; all other frames on its way are in order.
-/

namespace MonkeyLanguage

/-- Whether a value was sent up by a `return`. -/
def Value.isReturned : Value → Bool
  | returned _ => true
  | _ => false

/-- Whether a node is none of those that only statements and programs are made of. -/
def Node.isExpression : Node → Bool
  | program .. => false
  | letStatement .. => false
  | returnStatement .. => false
  | expressionStatement .. => false
  | block .. => false
  | _ => true

def Node.isProgram : Node → Bool
  | program .. => true
  | _ => false

/-- Whether the innermost frame wants a value. -/
def valueWanted : List Frame → Bool
  | [] => false
  | frame :: _ => frame.wantsValue

/-- Whether a frame hands up what a `return` sends. -/
def Frame.handsUp : Frame → Bool
  | next .. => true
  | send => true
  | _ => false

/-- Statements and `return`s are never directly below a frame that wants a value, and a program
is below none. -/
def Stacked : List Frame → Prop
  | [] => True
  | frame :: below =>
    (frame.handsUp = true → valueWanted below = false) ∧ (frame = .receive → below = []) ∧
      Stacked below

/-- Where a value is wanted, an expression is evaluated, and returned values arrive only if these
are allowed. -/
def Control.Orderly (returns : Prop) (frames : List Frame) : Control → Prop
  | evaluate _ node =>
    (valueWanted frames = true → node.isExpression = true) ∧ (node.isProgram = true → frames = [])
  | answer value => valueWanted frames = true → value.isReturned = true → returns
  | _ => True

/-! ## Nodes at their places -/

section

variable {limit : Numeral.DigitLimit} {node : Node}

theorem WellFormed.isExpression (h : WellFormed limit (.expression node)) :
    node.isExpression = true := by
  cases h <;> rfl

theorem WellFormed.isProgram (h : WellFormed limit (.expression node) ∨
    WellFormed limit (.statement node) ∨ WellFormed limit (.block node)) :
    node.isProgram = false := by
  rcases h with h | h | h <;> cases h <;> rfl

theorem hereditary_wellFormed (limit : Numeral.DigitLimit) : Hereditary (WellFormed limit) := by
  intro node h
  rcases h with h | h | h
  · cases h with
    | prefixed _ hright => exact List.forall_mem_singleton.2 hright
    | binary _ hleft hright =>
        exact List.forall_mem_cons.2 ⟨hleft, List.forall_mem_singleton.2 hright⟩
    | conditional hcondition hblock =>
        exact List.forall_mem_cons.2 ⟨hcondition, List.forall_mem_singleton.2 hblock⟩
    | choice hcondition hblock halternative =>
        refine List.forall_mem_cons.2 ⟨hcondition, List.forall_mem_cons.2 ⟨hblock, ?_⟩⟩
        cases halternative
        exact List.forall_mem_singleton.2 (.block ‹_›)
    | function _ _ hbody => exact List.forall_mem_singleton.2 hbody
    | call hcallee harguments =>
        exact List.forall_mem_cons.2 ⟨hcallee, List.forall_mem_map.2 harguments⟩
    | array helements => exact List.forall_mem_map.2 helements
    | hash hpairs =>
        refine List.forall_mem_flatMap.2 ?_
        intro pair hpair
        cases hpairs pair hpair with
        | pair hkey hvalue =>
            exact List.forall_mem_cons.2 ⟨hkey, List.forall_mem_singleton.2 hvalue⟩
    | index htarget hkey =>
        exact List.forall_mem_cons.2 ⟨htarget, List.forall_mem_singleton.2 hkey⟩
    | _ => nofun
  · cases h with
    | letStatement _ _ hvalue => exact List.forall_mem_singleton.2 hvalue
    | returnStatement _ hvalue => exact List.forall_mem_singleton.2 hvalue
    | expressionStatement hvalue => exact List.forall_mem_singleton.2 hvalue
  · cases h with
    | block hstatements => exact List.forall_mem_map.2 hstatements

end

/-! ## Computed values -/

section

variable {returns : Prop} {code : List Node → Node → Prop} {value : Value}

theorem Value.Clean.of_isReturned (h : value.Clean returns code)
    (hreturned : value.isReturned = true) : returns := by
  cases h with
  | returned h => exact h
  | _ => cases hreturned

theorem Value.Computed.of_isReturned (h : value.Computed returns code)
    (hreturned : value.isReturned = true) : returns := by
  rcases h with herror | hclean
  · cases value with
    | error cause => cases hreturned
    | _ => cases herror
  · exact hclean.of_isReturned hreturned

theorem Value.Computed.isReturned_eq_false (h : value.Computed False code) :
    value.isReturned = false :=
  Bool.eq_false_iff.2 h.of_isReturned

theorem Value.isReturned_prefixed (operator : String) (right : Value) :
    (right.prefixed operator).isReturned = false := by
  have h : (right.prefixed operator).Computed False fun _ _ => True := computed_prefixed ..
  exact h.isReturned_eq_false

theorem Value.isReturned_binary (operator : String) (left right : Value) (limit : Nat) :
    (left.binary operator right limit).isReturned = false := by
  have h : (left.binary operator right limit).Computed False fun _ _ => True := computed_binary ..
  exact h.isReturned_eq_false

theorem Value.isReturned_of_makeClosure {parameters : List Node} {body : Node} {scope : ScopeId}
    {machine final : Machine}
    (h : Eval.makeClosure parameters body scope machine = .ok value final) :
    value.isReturned = false := by
  cases h
  rfl

theorem Value.isReturned_of_callBuiltin {host : Host} {builtin : Builtin} {arguments : List Value}
    {machine final : Machine}
    (h : Eval.callBuiltin host builtin arguments machine = .ok value final) :
    value.isReturned = false := by
  have hcomputed : value.Computed False fun _ _ => True := by
    cases h
    exact computed_runBuiltin ..
  exact hcomputed.isReturned_eq_false

theorem Value.isReturned_of_not_isSignal (h : value.isSignal ≠ true) :
    value.isReturned = false := by
  cases value with
  | returned value => exact absurd rfl h
  | _ => rfl

theorem Value.Answer.of_isReturned_received (h : value.Answer returns code)
    (hreturned : value.received.isReturned = true) : returns := by
  rcases h with herror | hclean
  · cases value with
    | error cause => cases hreturned
    | _ => cases herror
  · exact hclean.of_isReturned hreturned

/-- An answer that is no error is clean, if it is no returned value or may be one. -/
theorem Value.Answer.clean_of_returned (h : value.Answer returns code)
    (herror : value.isError = false) (hreturned : value.isReturned = true → returns) :
    value.Clean returns code := by
  rcases h with h | hclean
  · rw [herror] at h
    cases h
  · cases value with
    | returned value => exact .returned (hreturned rfl) hclean
    | _ => exact hclean

end

namespace Moment

variable {limit : Numeral.DigitLimit} {returns : Prop} {code : List Node → Node → Prop}
  {host : Host} {frames : List Frame} {depth : Nat} {machine : Machine}

/-- The frames of a moment are in order, and so is what it works on. -/
structure Orderly (returns : Prop) (moment : Moment) : Prop where
  stacked : Stacked moment.frames
  control : moment.control.Orderly returns moment.frames

/-! ## Steps -/

section

variable (hstacked : Stacked frames)

include hstacked

theorem orderly_answer {value : Value} (h : value.isReturned = true → returns) :
    Orderly returns ⟨.answer value, frames, depth, machine⟩ :=
  ⟨hstacked, fun _ => h⟩

theorem orderly_plain {value : Value} (h : value.isReturned = false) :
    Orderly returns ⟨.answer value, frames, depth, machine⟩ := by
  apply orderly_answer hstacked
  intro hreturned
  rw [h] at hreturned
  cases hreturned

theorem orderly_fault (fault : Fault) : Orderly returns ⟨.fault fault, frames, depth, machine⟩ :=
  ⟨hstacked, trivial⟩

theorem orderly_call (function : Value) (arguments : List Value) :
    Orderly returns ⟨.call function arguments, frames, depth, machine⟩ :=
  ⟨hstacked, trivial⟩

theorem orderly_after {computation : Eval Value}
    (h : ∀ value final, computation machine = .ok value final → value.isReturned = true → returns) :
    Orderly returns (after frames depth machine computation) := by
  unfold after
  cases hresult : computation machine with
  | ok value final => exact orderly_answer hstacked (h value final hresult)
  | error fault final => exact orderly_fault hstacked fault

theorem orderly_after_plain {computation : Eval Value}
    (h : ∀ value final, computation machine = .ok value final → value.isReturned = false) :
    Orderly returns (after frames depth machine computation) := by
  apply orderly_after hstacked
  intro value final hresult hreturned
  rw [h value final hresult] at hreturned
  cases hreturned

theorem orderly_push {scope : ScopeId} {node : Node} {frame : Frame} (hreceive : frame ≠ .receive)
    (hup : frame.handsUp = true → valueWanted frames = false)
    (hnode : WellFormed limit (.expression node) ∨ WellFormed limit (.statement node) ∨
      WellFormed limit (.block node))
    (hexpression : frame.wantsValue = true → node.isExpression = true) :
    Orderly returns ⟨.evaluate scope node, frame :: frames, depth, machine⟩ := by
  refine ⟨⟨hup, fun h => absurd h hreceive, hstacked⟩, hexpression, ?_⟩
  rw [WellFormed.isProgram hnode]
  nofun

/-- A frame that is no `return` can wait for an expression anywhere. -/
theorem orderly_operand {scope : ScopeId} {node : Node} {frame : Frame}
    (hwants : frame.wantsValue = true) (hup : frame.handsUp = false)
    (hnode : WellFormed limit (.expression node)) :
    Orderly returns ⟨.evaluate scope node, frame :: frames, depth, machine⟩ := by
  refine orderly_push hstacked ?_ (fun h => ?_) (.inl hnode) fun _ => hnode.isExpression
  · rintro rfl
    cases hwants
  · rw [hup] at h
    cases h

theorem orderly_sequence (scope : ScopeId) {last : Value} {statements : List Node}
    (hfree : valueWanted frames = false) (hlast : last.isReturned = true → returns)
    (h : ∀ part ∈ statements.map Phrase.statement, WellFormed limit part) :
    Orderly returns (sequence frames depth machine scope last statements) := by
  cases statements with
  | nil => exact orderly_answer hstacked hlast
  | cons statement rest =>
      have hstatement := (List.forall_mem_cons.1 h).1
      exact orderly_push hstacked nofun (fun _ => hfree) (.inr (.inl hstatement)) nofun

theorem orderly_collect (scope : ScopeId) (collector : Collector) (before : List Value)
    {nodes : List Node} (h : ∀ part ∈ nodes.map Phrase.expression, WellFormed limit part) :
    Orderly returns (collect frames depth machine scope collector before nodes) := by
  cases nodes with
  | nil =>
      cases collector with
      | arguments function => exact orderly_call hstacked function before
      | elements => exact orderly_plain hstacked rfl
  | cons node rest => exact orderly_operand hstacked rfl rfl (List.forall_mem_cons.1 h).1

theorem orderly_gather (scope : ScopeId) (entries : List (HashKey × Value))
    {pairs : List (Node × Node)} (h : ∀ part ∈ Node.pairParts pairs, WellFormed limit part) :
    Orderly returns (gather frames depth machine scope entries pairs) := by
  cases pairs with
  | nil => exact orderly_plain hstacked rfl
  | cons pair rest => exact orderly_operand hstacked rfl rfl (List.forall_mem_cons.1 h).1

theorem orderly_otherwise (scope : ScopeId) {alternative : Node}
    (h : ∀ part ∈ alternative.alternativeParts, WellFormed limit part) :
    Orderly returns (otherwise frames depth machine scope alternative) := by
  cases alternative with
  | missing => exact orderly_plain hstacked rfl
  | _ =>
      have hblock := List.forall_mem_singleton.1 h
      exact orderly_push hstacked nofun nofun (.inr (.inr hblock)) nofun

theorem orderly_start (scope : ScopeId) {node : Node}
    (hexpression : valueWanted frames = true → node.isExpression = true)
    (hprogram : node.isProgram = true → frames = [])
    (hstore : machine.store.Holds (Value.Clean returns code))
    (h : ∀ part ∈ node.parts, WellFormed limit part) :
    Orderly returns (start frames depth machine scope node) := by
  have hfree (hnode : node.isExpression = false) : valueWanted frames = false := by
    cases hwanted : valueWanted frames with
    | false => rfl
    | true => rw [hexpression hwanted] at hnode; cases hnode
  cases node with
  | program token statements =>
      have hbottom : Stacked (.receive :: frames) := ⟨nofun, fun _ => hprogram rfl, hstacked⟩
      exact orderly_sequence hbottom scope rfl nofun h
  | letStatement =>
      exact orderly_operand hstacked rfl rfl (List.forall_mem_singleton.1 h)
  | returnStatement token value =>
      have hvalue := List.forall_mem_singleton.1 h
      exact orderly_push hstacked nofun (fun _ => hfree rfl) (.inl hvalue) fun _ =>
        hvalue.isExpression
  | expressionStatement token value =>
      have hvalue := List.forall_mem_singleton.1 h
      refine ⟨hstacked, fun _ => hvalue.isExpression, ?_⟩
      rw [WellFormed.isProgram (.inl hvalue)]
      nofun
  | block => exact orderly_sequence hstacked scope (hfree rfl) nofun h
  | identifier token name =>
      exact orderly_answer hstacked (hstore.computed_valueOf scope name).of_isReturned
  | prefixed => exact orderly_operand hstacked rfl rfl (List.forall_mem_singleton.1 h)
  | binary => exact orderly_operand hstacked rfl rfl (List.forall_mem_cons.1 h).1
  | conditional => exact orderly_operand hstacked rfl rfl (List.forall_mem_cons.1 h).1
  | function =>
      rw [start]
      apply orderly_after_plain hstacked
      intro value final hresult
      exact Value.isReturned_of_makeClosure hresult
  | call => exact orderly_operand hstacked rfl rfl (List.forall_mem_cons.1 h).1
  | array =>
      rw [start]
      exact orderly_collect hstacked scope _ _ h
  | hash => exact orderly_gather hstacked scope _ h
  | index => exact orderly_operand hstacked rfl rfl (List.forall_mem_cons.1 h).1
  | missing => exact orderly_fault hstacked _
  | foreign => exact orderly_fault hstacked _
  | _ => exact orderly_plain hstacked rfl

theorem orderly_enter {arguments : List Value} {function : Value} {next : Moment}
    (hfunction : function.Clean returns fun _ body => WellFormed limit (.block body))
    (h : Enters host frames machine arguments function depth next) : Orderly returns next := by
  cases h with
  | refused => exact orderly_plain hstacked rfl
  | builtin builtin =>
      apply orderly_after_plain hstacked
      intro value final hresult
      exact Value.isReturned_of_callBuiltin hresult
  | unnamed => exact orderly_fault hstacked _
  | exhausted => exact orderly_fault hstacked _
  | body =>
      cases hfunction with
      | closure hbody => exact orderly_push hstacked nofun nofun (.inr (.inr hbody)) nofun

theorem orderly_resume {value : Value} {frame : Frame}
    (hup : frame.handsUp = true → valueWanted frames = false)
    (hreceive : frame = .receive → frames = [])
    (hframe : ∀ kept ∈ frame.values, kept.Clean returns code)
    (hanswer : value.Answer returns code)
    (hvalue : frame.wantsValue = true → value.isReturned = true → returns)
    (hbranch : frame = .branch → valueWanted frames = true → value.isReturned = true → returns)
    (h : ∀ part ∈ frame.parts, WellFormed limit part) :
    Orderly returns (resume host frames depth machine value frame) := by
  cases frame with
  | receive => exact orderly_answer hstacked hanswer.of_isReturned_received
  | next scope rest =>
      simp only [resume]
      split
      · refine ⟨hstacked, fun hwanted => ?_⟩
        change valueWanted frames = true at hwanted
        rw [hup rfl] at hwanted
        cases hwanted
      case isFalse hsignal =>
        refine orderly_sequence hstacked scope (hup rfl) ?_ h
        rw [Value.isReturned_of_not_isSignal hsignal]
        nofun
  | bind scope name =>
      rw [resume]
      apply orderly_after hstacked
      intro result final hresult
      rw [eq_of_bindNode hresult]
      exact hvalue rfl
  | send =>
      refine ⟨hstacked, fun hwanted => ?_⟩
      change valueWanted frames = true at hwanted
      rw [hup rfl] at hwanted
      cases hwanted
  | operand operator => exact orderly_plain hstacked (Value.isReturned_prefixed operator value)
  | left => exact orderly_operand hstacked rfl rfl (List.forall_mem_singleton.1 h)
  | right operator left =>
      exact orderly_plain hstacked (Value.isReturned_binary operator left value _)
  | condition scope consequence alternative =>
      obtain ⟨hconsequence, halternative⟩ := List.forall_mem_cons.1 h
      simp only [resume]
      split
      · exact orderly_push hstacked nofun nofun (.inr (.inr hconsequence)) nofun
      · exact orderly_otherwise hstacked scope halternative
  | branch => exact ⟨hstacked, hbranch rfl⟩
  | callee =>
      rw [resume]
      exact orderly_collect hstacked _ _ _ h
  | item =>
      rw [resume]
      exact orderly_collect hstacked _ _ _ h
  | key scope entries node rest =>
      simp only [resume]
      split
      · exact orderly_plain hstacked rfl
      · exact orderly_operand hstacked rfl rfl (List.forall_mem_cons.1 h).1
  | entry => exact orderly_gather hstacked _ _ h
  | target => exact orderly_operand hstacked rfl rfl (List.forall_mem_singleton.1 h)
  | index target =>
      exact orderly_answer hstacked ((hframe target List.mem_cons_self).lookUp value).of_isReturned
  | body => exact orderly_answer hstacked hanswer.of_isReturned_received

end

/-- A branch hands up returned values to where a value is wanted only if these are allowed. -/
def BranchQuiet (returns : Prop) (moment : Moment) : Prop :=
  ∀ value below, moment.control = .answer value → moment.frames = .branch :: below →
    valueWanted below = true → value.isReturned = true → returns

theorem Orderly.step {moment next : Moment} (h : moment.Orderly returns)
    (hshaped : moment.Shaped (WellFormed limit)) (hbranch : moment.BranchQuiet returns)
    (hholds : moment.Holds returns fun _ body => WellFormed limit (.block body))
    (hstep : moment.step host = some next) : next.Orderly returns := by
  obtain ⟨hstacked, hcontrol⟩ := h
  cases turns_of_step hstep with
  | start scope node =>
      exact orderly_start hstacked scope hcontrol.1 hcontrol.2 hholds.store hshaped.control
  | enter henters => exact orderly_enter hstacked hholds.control.1 henters
  | past _ _ _ hwants => exact orderly_answer hstacked.2.2 (hcontrol hwants)
  | resume value frame below =>
      obtain ⟨hup, hreceive, hbelow⟩ := hstacked
      have hvalues := (List.forall_mem_cons.1 hholds.frames).1
      have hparts := (List.forall_mem_cons.1 hshaped.frames).1
      refine orderly_resume hbelow hup hreceive hvalues hholds.control hcontrol ?_ hparts
      rintro rfl
      exact hbranch value below rfl rfl
  | unwind => exact orderly_fault hstacked.2.2 _

theorem Orderly.wantsClean {moment : Moment} (h : moment.Orderly returns)
    (hholds : moment.Holds returns code) : moment.WantsClean returns code := by
  obtain ⟨control, frames, depth, machine⟩ := moment
  rintro value frame below rfl rfl hwants herror
  exact hholds.control.clean_of_returned herror (h.control hwants)

end Moment

end MonkeyLanguage
