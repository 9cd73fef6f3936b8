-- SUMMARY: What a run stores and hands around: values without errors inside.
import MonkeyLanguage.Proofs.Run.Clean

/-!
# What a run holds

At each moment of a run there are values in scopes, in frames, among the arguments of a call and
on their way as an answer. All but the answer are clean, and the answer is clean, an error, or a
clean value in a `return`. A step keeps it so, as long as no returned value gets into a frame
that wants a value.
-/

namespace MonkeyLanguage

/-- The values that a collector keeps. -/
def Collector.values : Collector → List Value
  | arguments function => [function]
  | elements => []

/-- The values that a frame keeps. -/
def Frame.values : Frame → List Value
  | right _ value => [value]
  | item _ collector before _ => collector.values ++ before
  | key _ entries _ _ => entries.map Prod.snd
  | entry _ entries _ _ => entries.map Prod.snd
  | index value => [value]
  | _ => []

/-- The values of a control are as they should be. -/
def Control.Holds (returns : Prop) (code : List Node → Node → Prop) : Control → Prop
  | call function arguments =>
    function.Clean returns code ∧ ∀ argument ∈ arguments, argument.Clean returns code
  | answer value => value.Answer returns code
  | _ => True

namespace Moment

/-- All values that are around at a moment are as they should be. -/
structure Holds (returns : Prop) (code : List Node → Node → Prop) (moment : Moment) : Prop where
  store : moment.machine.store.Holds (Value.Clean returns code)
  frames : ∀ frame ∈ moment.frames, ∀ value ∈ frame.values, value.Clean returns code
  control : moment.control.Holds returns code

variable {returns : Prop} {code : List Node → Node → Prop} {host : Host} {frames : List Frame}
  {depth : Nat} {machine : Machine}

theorem Holds.mono {code' : List Node → Node → Prop} {moment : Moment}
    (hcode : ∀ parameters body, code parameters body → code' parameters body)
    (h : moment.Holds returns code) : moment.Holds returns code' where
  store := h.store.mono fun _ => Value.Clean.mono hcode
  frames frame hframe value hvalue := (h.frames frame hframe value hvalue).mono hcode
  control := by
    obtain ⟨control, frames, depth, machine⟩ := moment
    cases control with
    | call function arguments =>
        exact ⟨h.control.1.mono hcode, fun argument hargument =>
          (h.control.2 argument hargument).mono hcode⟩
    | answer value => exact h.control.imp id (Value.Clean.mono hcode)
    | _ => trivial

/-! ## Computations -/

/-- The computation leaves clean values in the store and an answer. -/
def Keeps (returns : Prop) (code : List Node → Node → Prop) (computation : Eval Value)
    (machine : Machine) : Prop :=
  match computation machine with
  | .ok value final => final.store.Holds (Value.Clean returns code) ∧ value.Answer returns code
  | .error _ final => final.store.Holds (Value.Clean returns code)

theorem bindNode_eq (scope : ScopeId) (name : Node) (value : Value) :
    Eval.bindNode host scope name value machine =
      match name.boundName with
      | .ok name =>
        let traced := machine.trace host.traceLevel (.bound name value)
        .ok value { traced with store := traced.store.bind scope name value }
      | .error fault => .error fault machine := by
  cases name <;> rfl

/-- A binding answers with the value that it binds. -/
theorem eq_of_bindNode {scope : ScopeId} {name : Node} {value result : Value} {final : Machine}
    (h : Eval.bindNode host scope name value machine = .ok result final) : result = value := by
  rw [bindNode_eq] at h
  cases hname : name.boundName with
  | error fault =>
      rw [hname] at h
      cases h
  | ok text =>
      rw [hname] at h
      cases h
      rfl

theorem store_trace (level : Int) (event : TraceEvent) :
    (machine.trace level event).store = machine.store := by
  unfold Machine.trace
  split <;> rfl

theorem console_trace (level : Int) (event : TraceEvent) :
    (machine.trace level event).console = machine.console := by
  unfold Machine.trace
  split <;> rfl

theorem holds_enter {good : Value → Prop} (hstore : machine.store.Holds good)
    {parameters : List Node} {scope inner : ScopeId} {arguments : List Value} {final : Machine}
    (harguments : ∀ argument ∈ arguments, good argument)
    (h : Eval.enter host parameters scope arguments machine = .ok inner final) :
    final.store.Holds good := by
  rw [enter_eq] at h
  cases hnames : Node.parameterNames parameters with
  | error fault =>
      rw [hnames] at h
      cases h
  | ok names =>
      rw [hnames] at h
      cases h
      refine (Store.Holds.addScope ?_ _).bindAll _ fun entry hentry => ?_
      · rw [store_trace]
        exact hstore
      · exact harguments entry.2 (List.of_mem_zip hentry).2

section

variable (hstore : machine.store.Holds (Value.Clean returns code))

include hstore

theorem keeps_makeClosure {parameters : List Node} {body : Node} (scope : ScopeId)
    (hcode : code parameters body) :
    Keeps returns code (Eval.makeClosure parameters body scope) machine :=
  ⟨hstore, Value.Clean.answer (.closure hcode)⟩

theorem keeps_bindNode (scope : ScopeId) (name : Node) {value : Value}
    (hvalue : value.Clean returns code) :
    Keeps returns code (Eval.bindNode host scope name value) machine := by
  rw [Keeps, bindNode_eq]
  cases name.boundName with
  | error fault => exact hstore
  | ok name =>
      refine ⟨?_, hvalue.answer⟩
      rw [← store_trace host.traceLevel (.bound name value)] at hstore
      exact hstore.bind scope name hvalue

theorem keeps_callBuiltin (builtin : Builtin) (arguments : List Value) :
    Keeps returns code (Eval.callBuiltin host builtin arguments) machine := by
  rw [← store_trace host.traceLevel (.calledBuiltin builtin arguments.length)] at hstore
  exact ⟨hstore, (Value.computed_runBuiltin builtin arguments _).answer⟩

end

/-! ## Steps -/

section

variable (hstore : machine.store.Holds (Value.Clean returns code))
  (hframes : ∀ frame ∈ frames, ∀ value ∈ frame.values, value.Clean returns code)

include hstore hframes

theorem holds_answer {value : Value} (hvalue : value.Answer returns code) :
    Holds returns code ⟨.answer value, frames, depth, machine⟩ :=
  ⟨hstore, hframes, hvalue⟩

theorem holds_evaluate (scope : ScopeId) (node : Node) :
    Holds returns code ⟨.evaluate scope node, frames, depth, machine⟩ :=
  ⟨hstore, hframes, trivial⟩

theorem holds_evaluate_cons (scope : ScopeId) (node : Node) {frame : Frame}
    (hframe : ∀ value ∈ frame.values, value.Clean returns code) :
    Holds returns code ⟨.evaluate scope node, frame :: frames, depth, machine⟩ :=
  ⟨hstore, List.forall_mem_cons.2 ⟨hframe, hframes⟩, trivial⟩

omit hstore in
theorem holds_after {computation : Eval Value} (h : Keeps returns code computation machine) :
    Holds returns code (after frames depth machine computation) := by
  unfold Keeps at h
  unfold after
  cases hresult : computation machine with
  | ok value final =>
      rw [hresult] at h
      exact ⟨h.1, hframes, h.2⟩
  | error fault final =>
      rw [hresult] at h
      exact ⟨h, hframes, trivial⟩

theorem holds_sequence (scope : ScopeId) {last : Value} (hlast : last.Answer returns code)
    (statements : List Node) :
    Holds returns code (sequence frames depth machine scope last statements) := by
  cases statements with
  | nil => exact holds_answer hstore hframes hlast
  | cons statement rest =>
      exact holds_evaluate_cons hstore hframes scope statement (by simp [Frame.values])

theorem holds_collect (scope : ScopeId) {collector : Collector} {before : List Value}
    (hvalues : ∀ value ∈ collector.values ++ before, value.Clean returns code)
    (nodes : List Node) :
    Holds returns code (collect frames depth machine scope collector before nodes) := by
  cases nodes with
  | nil =>
      cases collector with
      | arguments function => exact ⟨hstore, hframes, List.forall_mem_cons.1 hvalues⟩
      | elements => exact holds_answer hstore hframes (Value.Clean.array hvalues).answer
  | cons node rest => exact holds_evaluate_cons hstore hframes scope node hvalues

theorem holds_gather (scope : ScopeId) {entries : List (HashKey × Value)}
    (hentries : ∀ entry ∈ entries, entry.2.Clean returns code) (pairs : List (Node × Node)) :
    Holds returns code (gather frames depth machine scope entries pairs) := by
  cases pairs with
  | nil => exact holds_answer hstore hframes (Value.Clean.hash hentries).answer
  | cons pair rest =>
      exact holds_evaluate_cons hstore hframes scope pair.1 (List.forall_mem_map.2 hentries)

theorem holds_otherwise (scope : ScopeId) (alternative : Node) :
    Holds returns code (otherwise frames depth machine scope alternative) := by
  cases alternative with
  | missing => exact holds_answer hstore hframes Value.Clean.null.answer
  | _ => exact holds_evaluate_cons hstore hframes scope _ (by simp [Frame.values])

theorem holds_start (scope : ScopeId) (node : Node)
    (hcode : ∀ token parameters body, node = .function token parameters body →
      code parameters body) :
    Holds returns code (start frames depth machine scope node) := by
  cases node with
  | program token statements =>
      exact holds_sequence hstore (List.forall_mem_cons.2 ⟨by simp [Frame.values], hframes⟩) scope
        Value.Clean.null.answer statements
  | expressionStatement token value => exact holds_evaluate hstore hframes scope value
  | block token statements =>
      exact holds_sequence hstore hframes scope Value.Clean.null.answer statements
  | identifier token name =>
      exact holds_answer hstore hframes (hstore.computed_valueOf scope name).answer
  | integer token value => exact holds_answer hstore hframes (Value.Clean.integer _).answer
  | string token text => exact holds_answer hstore hframes (Value.Clean.string _).answer
  | boolean token value => exact holds_answer hstore hframes (Value.Clean.boolean _).answer
  | function token parameters body =>
      exact holds_after hframes (keeps_makeClosure hstore scope (hcode token parameters body rfl))
  | array token elements =>
      have hnone : ∀ value ∈ Collector.elements.values ++ [], value.Clean returns code := by
        simp [Collector.values]
      exact holds_collect hstore hframes scope hnone elements
  | hash token pairs => exact holds_gather hstore hframes scope (by simp) pairs
  | missing => exact ⟨hstore, hframes, trivial⟩
  | foreign => exact ⟨hstore, hframes, trivial⟩
  | _ => exact holds_evaluate_cons hstore hframes scope _ (by simp [Frame.values])

theorem holds_call {function : Value} {arguments : List Value} {next : Moment}
    (harguments : ∀ argument ∈ arguments, argument.Clean returns code)
    (h : Enters host frames machine arguments function depth next) : Holds returns code next := by
  cases h with
  | refused => exact holds_answer hstore hframes (Value.answer_error _)
  | builtin builtin => exact holds_after hframes (keeps_callBuiltin hstore builtin arguments)
  | unnamed => exact ⟨hstore, hframes, trivial⟩
  | exhausted henter => exact ⟨holds_enter hstore harguments henter, hframes, trivial⟩
  | body henter =>
      exact holds_evaluate_cons (holds_enter hstore harguments henter) hframes _ _
        (by simp [Frame.values])

theorem holds_resume {value : Value} {frame : Frame} (hanswer : value.Answer returns code)
    (hvalue : frame.wantsValue = true → value.Clean returns code)
    (hframe : ∀ kept ∈ frame.values, kept.Clean returns code) :
    Holds returns code (resume host frames depth machine value frame) := by
  cases frame with
  | receive => exact holds_answer hstore hframes hanswer.received
  | next scope rest =>
      simp only [resume]
      split
      · exact holds_answer hstore hframes hanswer
      · exact holds_sequence hstore hframes scope hanswer rest
  | bind scope name => exact holds_after hframes (keeps_bindNode hstore scope name (hvalue rfl))
  | send => exact holds_answer hstore hframes (.inr (hvalue rfl))
  | operand operator =>
      exact holds_answer hstore hframes (Value.computed_prefixed operator value).answer
  | left scope operator right =>
      have hleft : ∀ kept ∈ (Frame.right operator value).values, kept.Clean returns code :=
        List.forall_mem_singleton.2 (hvalue rfl)
      exact holds_evaluate_cons hstore hframes scope right hleft
  | right operator left =>
      exact holds_answer hstore hframes (Value.computed_binary operator left value _).answer
  | condition scope consequence alternative =>
      rw [← store_trace host.traceLevel (.decided value)] at hstore
      simp only [resume]
      split
      · exact holds_evaluate_cons hstore hframes scope consequence (by simp [Frame.values])
      · exact holds_otherwise hstore hframes scope alternative
  | branch => exact holds_answer hstore hframes hanswer
  | callee scope arguments =>
      have hfunction : ∀ kept ∈ (Collector.arguments value).values ++ [],
          kept.Clean returns code := by
        simpa [Collector.values] using hvalue rfl
      exact holds_collect hstore hframes scope hfunction arguments
  | item scope collector before rest =>
      refine holds_collect hstore hframes scope ?_ rest
      rw [← List.append_assoc]
      exact List.forall_mem_append.2 ⟨hframe, by simpa using hvalue rfl⟩
  | key scope entries node rest =>
      simp only [resume]
      split
      · exact holds_answer hstore hframes (Value.answer_error _)
      · exact holds_evaluate_cons hstore hframes scope node hframe
  | entry scope entries key rest =>
      exact holds_gather hstore hframes scope
        (Table.of_mem_insert (List.forall_mem_map.1 hframe) (hvalue rfl)) rest
  | target scope key =>
      have htarget : ∀ kept ∈ (Frame.index value).values, kept.Clean returns code :=
        List.forall_mem_singleton.2 (hvalue rfl)
      exact holds_evaluate_cons hstore hframes scope key htarget
  | index target =>
      exact holds_answer hstore hframes ((hframe target List.mem_cons_self).lookUp value).answer
  | body => exact holds_answer hstore hframes hanswer.received

end

/-- A value that arrives where one is wanted is clean, unless it is an error. -/
def WantsClean (returns : Prop) (code : List Node → Node → Prop) (moment : Moment) : Prop :=
  ∀ value frame below, moment.control = .answer value → moment.frames = frame :: below →
    frame.wantsValue = true → value.isError = false → value.Clean returns code

/-- If returned values are allowed inside values, no value is kept from a frame but an error. -/
theorem Holds.wantsClean {moment : Moment} (h : moment.Holds True code) :
    moment.WantsClean True code := by
  intro value frame below hcontrol _ _ herror
  have hanswer := h.control
  rw [hcontrol] at hanswer
  exact hanswer.clean herror

theorem Holds.step {moment next : Moment} (h : moment.Holds returns code)
    (hwanted : moment.WantsClean returns code)
    (hcode : ∀ scope token parameters body,
      moment.control = .evaluate scope (.function token parameters body) → code parameters body)
    (hstep : moment.step host = some next) : next.Holds returns code := by
  obtain ⟨hstore, hframes, hcontrol⟩ := h
  cases turns_of_step hstep with
  | start scope node =>
      exact holds_start hstore hframes scope node fun token parameters body hnode =>
        hcode scope token parameters body (by rw [hnode])
  | enter henters => exact holds_call hstore hframes hcontrol.2 henters
  | past => exact holds_answer hstore (List.forall_mem_cons.1 hframes).2 hcontrol
  | resume value frame below depth machine hpasses =>
      obtain ⟨hframe, hbelow⟩ := List.forall_mem_cons.1 hframes
      refine holds_resume hstore hbelow hcontrol (fun hwants => ?_) hframe
      exact hwanted value frame below rfl rfl hwants (hpasses hwants)
  | unwind => exact ⟨hstore, (List.forall_mem_cons.1 hframes).2, trivial⟩

end Moment

end MonkeyLanguage
