-- SUMMARY: The parser hands out whole trees, and running one has no fault but the limit on calls.
import MonkeyLanguage.Proofs.Reading.Made
import MonkeyLanguage.Proofs.Run.Absorption
import MonkeyLanguage.Proofs.Run.Shapes

/-!
# Whole trees and faults

A tree is whole if every child is there and is of the class that its place asks for. The parser
hands out no other trees, whatever errors it meets. A run works on parts of whole trees only, the
code of its functions included, and so it never gets to a node that it cannot evaluate or to
something other than a name where a name is bound. The one fault that is left is the limit on
calls.
-/

namespace MonkeyLanguage

/-! ## Whole trees -/

/-- Nothing is missing in the phrase, and all that is there stands where it may stand. Only the
alternative of a conditional need not be there. -/
inductive Whole : Phrase → Prop where
  | identifier (token : Token) (name : String) : Whole (.expression (.identifier token name))
  | integer (token : Token) (value : Int) : Whole (.expression (.integer token value))
  | string (token : Token) (text : String) : Whole (.expression (.string token text))
  | boolean (token : Token) (value : Bool) : Whole (.expression (.boolean token value))
  | prefixed (token : Token) (operator : String) {right : Node} :
      Whole (.expression right) → Whole (.expression (.prefixed token operator right))
  | binary (token : Token) (operator : String) {left right : Node} :
      Whole (.expression left) → Whole (.expression right) →
      Whole (.expression (.binary token operator left right))
  | conditional (token : Token) {condition block : Node} :
      Whole (.expression condition) → Whole (.block block) →
      Whole (.expression (.conditional token condition block .missing))
  | choice (token : Token) {condition block alternative : Node} :
      Whole (.expression condition) → Whole (.block block) → Whole (.block alternative) →
      Whole (.expression (.conditional token condition block alternative))
  | function (token : Token) {parameters : List Node} {body : Node} :
      (∀ parameter ∈ parameters, Whole (.parameter parameter)) → Whole (.block body) →
      Whole (.expression (.function token parameters body))
  | call (token : Token) {callee : Node} {arguments : List Node} :
      Whole (.expression callee) → (∀ argument ∈ arguments, Whole (.expression argument)) →
      Whole (.expression (.call token callee arguments))
  | array (token : Token) {elements : List Node} :
      (∀ element ∈ elements, Whole (.expression element)) →
      Whole (.expression (.array token elements))
  | hash (token : Token) {pairs : List (Node × Node)} :
      (∀ pair ∈ pairs, Whole (.pair pair.1 pair.2)) → Whole (.expression (.hash token pairs))
  | index (token : Token) {target key : Node} :
      Whole (.expression target) → Whole (.expression key) →
      Whole (.expression (.index token target key))
  | parameter (token : Token) (name : String) : Whole (.parameter (.identifier token name))
  | pair {key value : Node} :
      Whole (.expression key) → Whole (.expression value) → Whole (.pair key value)
  | letStatement (token : Token) {name value : Node} :
      Whole (.parameter name) → Whole (.expression value) →
      Whole (.statement (.letStatement token name value))
  | returnStatement (token : Token) {value : Node} :
      Whole (.expression value) → Whole (.statement (.returnStatement token value))
  | expressionStatement (token : Token) {value : Node} :
      Whole (.expression value) → Whole (.statement (.expressionStatement token value))
  | block (token : Token) {statements : List Node} :
      (∀ statement ∈ statements, Whole (.statement statement)) →
      Whole (.block (.block token statements))

/-- The node is a program of whole statements. -/
def WholeProgram : Node → Prop
  | .program _ statements => ∀ statement ∈ statements, Whole (.statement statement)
  | _ => False

theorem Made.whole {limit : Numeral.DigitLimit} {T : Token → Prop} {phrase : Phrase}
    (h : Made limit T phrase) : Whole phrase := by
  induction h with
  | identifier => exact .identifier ..
  | integer => exact .integer ..
  | string => exact .string ..
  | trueWord => exact .boolean ..
  | falseWord => exact .boolean ..
  | prefixed _ _ _ hright => exact .prefixed _ _ hright
  | conditional _ _ _ hcondition hblock => exact .conditional _ hcondition hblock
  | choice _ _ _ _ hcondition hblock halternative => exact .choice _ hcondition hblock halternative
  | function _ _ _ _ hparameters hbody => exact .function _ hparameters hbody
  | array _ _ helements => exact .array _ helements
  | hash _ _ hpairs => exact .hash _ hpairs
  | binary _ _ _ _ hleft hright => exact .binary _ _ hleft hright
  | call _ _ _ hcallee harguments => exact .call _ hcallee harguments
  | index _ _ _ htarget hkey => exact .index _ htarget hkey
  | property _ _ _ _ htarget => exact .index _ htarget (.string ..)
  | parameter => exact .parameter ..
  | pair _ _ hkey hvalue => exact .pair hkey hvalue
  | letStatement _ _ _ _ _ hvalue => exact .letStatement _ (.parameter ..) hvalue
  | returnStatement _ _ _ hvalue => exact .returnStatement _ hvalue
  | expressionStatement _ _ hvalue => exact .expressionStatement _ hvalue
  | block _ _ hnodes => exact .block _ hnodes

/-- The parser hands out whole programs, with or without errors. -/
theorem Parse.wholeProgram_ofFeed (feed : Feed) (limit : Numeral.DigitLimit) :
    WholeProgram (Parse.ofFeed feed limit).program := by
  obtain ⟨reply, -, hparse, hmade⟩ :=
    Parse.ofFeed_reply limit (fun _ _ => trivial : ∀ token ∈ feed.ahead, True)
  rw [hparse]
  cases hvalue : reply.value? with
  | none => exact List.forall_mem_nil _
  | some nodes => exact fun node hnode => (hmade nodes hvalue node hnode).whole

theorem hereditary_whole : Hereditary Whole := by
  rintro node (h | h | h)
  · cases h with
    | prefixed _ _ hright => exact List.forall_mem_singleton.2 hright
    | binary _ _ hleft hright =>
        exact List.forall_mem_cons.2 ⟨hleft, List.forall_mem_singleton.2 hright⟩
    | conditional _ hcondition hblock =>
        exact List.forall_mem_cons.2 ⟨hcondition, List.forall_mem_singleton.2 hblock⟩
    | choice _ hcondition hblock halternative =>
        refine List.forall_mem_cons.2 ⟨hcondition, List.forall_mem_cons.2 ⟨hblock, ?_⟩⟩
        cases halternative
        exact List.forall_mem_singleton.2 (.block _ ‹_›)
    | function _ _ hbody => exact List.forall_mem_singleton.2 hbody
    | call _ hcallee harguments =>
        exact List.forall_mem_cons.2 ⟨hcallee, List.forall_mem_map.2 harguments⟩
    | array _ helements => exact List.forall_mem_map.2 helements
    | hash _ hpairs =>
        refine List.forall_mem_flatMap.2 fun pair hpair => ?_
        cases hpairs pair hpair with
        | pair hkey hvalue =>
            exact List.forall_mem_cons.2 ⟨hkey, List.forall_mem_singleton.2 hvalue⟩
    | index _ htarget hkey =>
        exact List.forall_mem_cons.2 ⟨htarget, List.forall_mem_singleton.2 hkey⟩
    | _ => nofun
  · cases h with
    | letStatement _ _ hvalue => exact List.forall_mem_singleton.2 hvalue
    | returnStatement _ hvalue => exact List.forall_mem_singleton.2 hvalue
    | expressionStatement _ hvalue => exact List.forall_mem_singleton.2 hvalue
  · cases h with
    | block _ hstatements => exact List.forall_mem_map.2 hstatements

/-! ## Names that are bound -/

theorem exists_parameterNames {parameters : List Node}
    (h : ∀ parameter ∈ parameters, Whole (.parameter parameter)) :
    ∃ names, Node.parameterNames parameters = .ok names := by
  induction parameters with
  | nil => exact ⟨[], rfl⟩
  | cons parameter rest ih =>
      obtain ⟨hparameter, hrest⟩ := List.forall_mem_cons.1 h
      obtain ⟨names, hnames⟩ := ih hrest
      cases hparameter with
      | parameter token name =>
          refine ⟨name :: names, ?_⟩
          rw [Node.parameterNames] at hnames ⊢
          rw [List.mapM_cons, hnames]
          rfl

/-! ## Moments without faults -/

/-- The code of a function is whole. -/
def WholeCode (parameters : List Node) (body : Node) : Prop :=
  (∀ parameter ∈ parameters, Whole (.parameter parameter)) ∧ Whole (.block body)

/-- There is no error in the value, and its functions have whole code. -/
abbrev Value.Sound : Value → Prop :=
  Value.Clean True WholeCode

/-- The node can be evaluated: it is whole at some place. -/
def Node.Whole (node : Node) : Prop :=
  WholeProgram node ∨ MonkeyLanguage.Whole (.expression node) ∨
    MonkeyLanguage.Whole (.statement node) ∨ MonkeyLanguage.Whole (.block node)

/-- What is evaluated is whole, and no fault came up but the limit on calls. -/
def Control.Safe : Control → Prop
  | evaluate _ node => node.Whole
  | fault cause => cause = .recursionLimit
  | _ => True

/-- What a frame binds is a name. -/
def Frame.Safe : Frame → Prop
  | bind _ name => Whole (.parameter name)
  | _ => True

namespace Moment

/-- The control and the frames of a moment are safe. -/
structure Safe (moment : Moment) : Prop where
  control : moment.control.Safe
  frames : ∀ frame ∈ moment.frames, frame.Safe

variable {host : Host} {frames : List Frame} {depth : Nat} {machine : Machine}

section

variable (hframes : ∀ frame ∈ frames, frame.Safe)

include hframes

theorem safe_after {computation : Eval Value} {value : Value} {final : Machine}
    (h : computation machine = .ok value final) :
    Safe (after frames depth machine computation) := by
  rw [after, h]
  exact ⟨trivial, hframes⟩

theorem safe_evaluate (scope : ScopeId) {node : Node} {frame : Frame}
    (hnode : Whole (.expression node) ∨ Whole (.statement node) ∨ Whole (.block node))
    (hframe : frame.Safe) : Safe ⟨.evaluate scope node, frame :: frames, depth, machine⟩ :=
  ⟨.inr hnode, List.forall_mem_cons.2 ⟨hframe, hframes⟩⟩

theorem safe_sequence (scope : ScopeId) (last : Value) {statements : List Node}
    (h : ∀ part ∈ statements.map Phrase.statement, Whole part) :
    Safe (sequence frames depth machine scope last statements) := by
  cases statements with
  | nil => exact ⟨trivial, hframes⟩
  | cons statement rest =>
      exact safe_evaluate hframes scope (.inr (.inl (List.forall_mem_cons.1 h).1)) trivial

theorem safe_collect (scope : ScopeId) (collector : Collector) (before : List Value)
    {nodes : List Node} (h : ∀ part ∈ nodes.map Phrase.expression, Whole part) :
    Safe (collect frames depth machine scope collector before nodes) := by
  cases nodes with
  | nil => cases collector <;> exact ⟨trivial, hframes⟩
  | cons node rest => exact safe_evaluate hframes scope (.inl (List.forall_mem_cons.1 h).1) trivial

theorem safe_gather (scope : ScopeId) (entries : List (HashKey × Value))
    {pairs : List (Node × Node)} (h : ∀ part ∈ Node.pairParts pairs, Whole part) :
    Safe (gather frames depth machine scope entries pairs) := by
  cases pairs with
  | nil => exact ⟨trivial, hframes⟩
  | cons pair rest => exact safe_evaluate hframes scope (.inl (List.forall_mem_cons.1 h).1) trivial

theorem safe_otherwise (scope : ScopeId) {alternative : Node}
    (h : ∀ part ∈ alternative.alternativeParts, Whole part) :
    Safe (otherwise frames depth machine scope alternative) := by
  cases alternative with
  | missing => exact ⟨trivial, hframes⟩
  | _ => exact safe_evaluate hframes scope (.inr (.inr (List.forall_mem_singleton.1 h))) trivial

theorem safe_start (scope : ScopeId) {node : Node} (hnode : node.Whole)
    (h : ∀ part ∈ node.parts, Whole part) : Safe (start frames depth machine scope node) := by
  cases node with
  | program token statements =>
      have hreceive : ∀ frame ∈ Frame.receive :: frames, frame.Safe :=
        List.forall_mem_cons.2 ⟨trivial, hframes⟩
      exact safe_sequence hreceive scope _ h
  | letStatement token name value =>
      rcases hnode with hnode | hnode | hnode | hnode <;> cases hnode
      exact safe_evaluate hframes scope (.inl ‹_›) ‹_›
  | expressionStatement token value =>
      exact ⟨.inr (.inl (List.forall_mem_singleton.1 h)), hframes⟩
  | block token statements => exact safe_sequence hframes scope _ h
  | function token parameters body => exact safe_after hframes rfl
  | array token elements =>
      rw [start]
      exact safe_collect hframes scope _ _ h
  | hash token pairs => exact safe_gather hframes scope _ h
  | missing => rcases hnode with hnode | hnode | hnode | hnode <;> cases hnode
  | foreign => rcases hnode with hnode | hnode | hnode | hnode <;> cases hnode
  | identifier => exact ⟨trivial, hframes⟩
  | integer => exact ⟨trivial, hframes⟩
  | string => exact ⟨trivial, hframes⟩
  | boolean => exact ⟨trivial, hframes⟩
  | returnStatement token value =>
      exact safe_evaluate hframes scope (.inl (List.forall_mem_singleton.1 h)) trivial
  | prefixed token operator right =>
      exact safe_evaluate hframes scope (.inl (List.forall_mem_singleton.1 h)) trivial
  | _ => exact safe_evaluate hframes scope (.inl (List.forall_mem_cons.1 h).1) trivial

theorem safe_enter {arguments : List Value} {function : Value} (hfunction : function.Sound) :
    Safe (enter host frames depth machine arguments function) := by
  cases hfunction with
  | closure hcode =>
      obtain ⟨hparameters, hbody⟩ := hcode
      obtain ⟨names, hnames⟩ := exists_parameterNames hparameters
      rw [enter]
      split
      · exact ⟨trivial, hframes⟩
      · rw [enter_eq, hnames]
        cases depth with
        | zero => exact ⟨rfl, hframes⟩
        | succ depth => exact safe_evaluate hframes _ (.inr (.inr hbody)) trivial
  | builtin builtin => exact safe_after hframes rfl
  | _ => exact ⟨trivial, hframes⟩

theorem safe_resume (value : Value) {frame : Frame} (hframe : frame.Safe)
    (h : ∀ part ∈ frame.parts, Whole part) :
    Safe (resume host frames depth machine value frame) := by
  cases frame with
  | next scope rest =>
      rw [resume]
      split
      · exact ⟨trivial, hframes⟩
      · exact safe_sequence hframes scope _ h
  | bind scope name =>
      cases hframe
      exact safe_after hframes rfl
  | left scope operator right =>
      exact safe_evaluate hframes scope (.inl (List.forall_mem_singleton.1 h)) trivial
  | condition scope consequence alternative =>
      obtain ⟨hconsequence, halternative⟩ := List.forall_mem_cons.1 h
      rw [resume]
      split
      · exact safe_evaluate hframes scope (.inr (.inr hconsequence)) trivial
      · exact safe_otherwise hframes scope halternative
  | callee scope arguments =>
      rw [resume]
      exact safe_collect hframes _ _ _ h
  | item scope collector before rest =>
      rw [resume]
      exact safe_collect hframes _ _ _ h
  | key scope entries node rest =>
      rw [resume]
      split
      · exact ⟨trivial, hframes⟩
      · exact safe_evaluate hframes scope (.inl (List.forall_mem_cons.1 h).1) trivial
  | entry scope entries key rest => exact safe_gather hframes scope _ h
  | target scope key =>
      exact safe_evaluate hframes scope (.inl (List.forall_mem_singleton.1 h)) trivial
  | _ => exact ⟨trivial, hframes⟩

end

theorem Safe.step {moment next : Moment} (h : moment.Safe) (hshaped : moment.Shaped Whole)
    (hholds : moment.Holds True WholeCode) (hstep : moment.step host = some next) :
    next.Safe := by
  obtain ⟨hcontrol, hframes⟩ := h
  obtain ⟨control, frames, depth, machine⟩ := moment
  cases control with
  | evaluate scope node =>
      obtain rfl := Option.some.inj hstep
      exact safe_start hframes scope hcontrol hshaped.control
  | call function arguments =>
      obtain rfl := Option.some.inj hstep
      exact safe_enter hframes hholds.control.1
  | answer value =>
      cases frames with
      | nil => cases hstep
      | cons frame frames =>
          obtain ⟨hframe, hbelow⟩ := List.forall_mem_cons.1 hframes
          obtain rfl := Option.some.inj hstep
          rw [arrive]
          split
          · exact ⟨trivial, hbelow⟩
          · exact safe_resume hbelow value hframe (List.forall_mem_cons.1 hshaped.frames).1
  | fault fault =>
      cases frames with
      | nil => cases hstep
      | cons frame frames =>
          obtain rfl := Option.some.inj hstep
          cases frame <;> exact ⟨hcontrol, (List.forall_mem_cons.1 hframes).2⟩

/-- All that is around at a moment is whole, and no fault came up but the limit on calls. -/
structure Sound (moment : Moment) : Prop where
  holds : moment.Holds True WholeCode
  shaped : moment.Shaped Whole
  safe : moment.Safe

theorem Sound.step {moment next : Moment} (h : moment.Sound)
    (hstep : moment.step host = some next) : next.Sound := by
  obtain ⟨hholds, hshaped, hsafe⟩ := h
  refine ⟨hholds.step hholds.wantsClean ?_ hstep, ?_, hsafe.step hshaped hholds hstep⟩
  · intro scope token parameters body hcontrol
    have hnode := hsafe.control
    rw [hcontrol] at hnode
    rcases hnode with hnode | hnode | hnode | hnode <;> cases hnode
    exact ⟨‹_›, ‹_›⟩
  · exact hshaped.step hereditary_whole (hholds.mono fun _ _ hcode => hcode.2) hstep

theorem Sound.reaches {moment later : Moment} (h : moment.Sound)
    (hreaches : Reaches host moment later) : later.Sound := by
  induction hreaches with
  | refl => exact h
  | tail _ hstep ih => exact ih.step hstep

theorem Sound.of_ok {moment : Moment} {value : Value} {final : Machine} (h : moment.Sound)
    (hmeaning : moment.meaning host = .ok value final) :
    value.Answer True WholeCode ∧ final.store.Holds Value.Sound := by
  have hend := h.reaches (arrives_of_ok hmeaning)
  exact ⟨hend.holds.control, hend.holds.store⟩

theorem Sound.of_error {moment : Moment} {fault : Fault} {final : Machine} (h : moment.Sound)
    (hmeaning : moment.meaning host = .error fault final) :
    fault = .recursionLimit ∧ final.store.Holds Value.Sound := by
  have harrives := arrives host moment
  rw [after_of_error hmeaning] at harrives
  have hend := h.reaches harrives
  exact ⟨hend.safe.control, hend.holds.store⟩

end Moment

/-! ## Runs and calls -/

/-- The only fault that can have come up is the limit on calls, and the code of all functions that
are left, in the scopes or in the result, is whole. -/
structure Outcome.Sound (outcome : Outcome Value) : Prop where
  fault : ∀ fault, outcome.result = .error fault → fault = .recursionLimit
  value : ∀ value, outcome.result = .ok value → value.isError = true ∨ value.Sound
  store : outcome.machine.store.Holds Value.Sound

theorem Outcome.sound_perform {work : Eval Value} {machine : Machine}
    (hok : ∀ value final, work { machine with console := .empty } = .ok value final →
      value.Answer True WholeCode ∧ final.store.Holds Value.Sound)
    (herror : ∀ fault final, work { machine with console := .empty } = .error fault final →
      fault = .recursionLimit ∧ final.store.Holds Value.Sound) :
    (work.perform machine).Sound := by
  rw [Eval.perform]
  cases hwork : work { machine with console := .empty } with
  | ok value final =>
      obtain ⟨hvalue, hfinal⟩ := hok value final hwork
      refine ⟨nofun, fun other hother => ?_, hfinal⟩
      cases hother
      cases hiserror : value.isError with
      | true => exact .inl rfl
      | false => exact .inr (hvalue.clean hiserror)
  | error fault final =>
      obtain ⟨hfault, hfinal⟩ := herror fault final hwork
      refine ⟨fun other hother => ?_, nofun, hfinal⟩
      cases hother
      exact hfault

namespace Settings

section

variable (settings : Settings) {machine : Machine} (hstore : machine.store.Holds Value.Sound)

include hstore

theorem sound_begin (scope : ScopeId) {program : Node} (hprogram : WholeProgram program) :
    (settings.begin scope program machine).Sound := by
  cases program with
  | program token statements =>
      refine ⟨⟨?_, nofun, trivial⟩, ⟨List.forall_mem_map.2 hprogram, nofun⟩, .inl hprogram, nofun⟩
      rw [begin, Moment.store_trace]
      exact hstore
  | _ => exact hprogram.elim

theorem run_sound (scope : ScopeId) {program : Node} (hprogram : WholeProgram program) :
    ((settings.run scope program).perform machine).Sound := by
  have hbegin : (settings.begin scope program { machine with console := .empty }).Sound :=
    @sound_begin settings { machine with console := .empty } hstore scope program hprogram
  apply Outcome.sound_perform
  · intro value final hrun
    rw [run_eq] at hrun
    split at hrun
    case h_1 cause middle hmeaning =>
      cases hrun
      rw [Moment.store_trace]
      exact hbegin.of_ok hmeaning
    case h_2 result middle _ hmeaning =>
      cases hrun
      exact hbegin.of_ok hmeaning
    case h_3 => cases hrun
  · intro fault final hrun
    rw [run_eq] at hrun
    split at hrun
    case h_3 cause middle hmeaning =>
      cases hrun
      exact hbegin.of_error hmeaning
    all_goals cases hrun

theorem call_sound {function : Value} {arguments : List Value} (hfunction : function.Sound)
    (harguments : ∀ argument ∈ arguments, argument.Sound) :
    ((settings.call function arguments).perform machine).Sound := by
  have hbegin : Moment.Sound
      ⟨.call function arguments, [], settings.depth, { machine with console := .empty }⟩ :=
    ⟨⟨hstore, nofun, hfunction, harguments⟩, ⟨trivial, nofun⟩, trivial, nofun⟩
  exact Outcome.sound_perform (fun _ _ hcall => hbegin.of_ok hcall)
    fun _ _ hcall => hbegin.of_error hcall

end

/-- The parser hands out whole programs for all lists of tokens. So what it hands out for a source,
with or without errors, can be run on a machine of its own or after other such programs, and
whatever functions are left can be called: no fault comes up but the limit on calls. -/
theorem parsed_sound :
    (∀ (tokens : List Token) (limit : Numeral.DigitLimit),
      WholeProgram (Parse.ofTokens tokens limit).program) ∧
    (∀ (settings : Settings) (source : String) (limit : Numeral.DigitLimit),
      ((settings.run globalScope (Parse.ofSource source limit).program).perform .initial).Sound) ∧
    ∀ (settings : Settings) (machine : Machine), machine.store.Holds Value.Sound →
      (∀ scope source limit,
        ((settings.run scope (Parse.ofSource source limit).program).perform machine).Sound) ∧
      ∀ function arguments, function.Sound → (∀ argument ∈ arguments, argument.Sound) →
        ((settings.call function arguments).perform machine).Sound := by
  refine ⟨fun tokens limit => Parse.wholeProgram_ofFeed _ limit, fun settings source limit => ?_,
    fun settings machine hstore => ⟨fun scope source limit => ?_, fun function arguments => ?_⟩⟩
  · exact settings.run_sound (holds_initial _) globalScope (Parse.wholeProgram_ofFeed _ limit)
  · exact settings.run_sound hstore scope (Parse.wholeProgram_ofFeed _ limit)
  · exact settings.call_sound hstore

/-- A source with errors, from which a function that calls itself is kept. -/
def brokenLoop : String :=
  "let f = fn(x) \x7b x + ; f(x) \x7d; f("

/-- The machine after running what is read from that source. -/
def afterBrokenLoop : Machine :=
  ((run {} globalScope (Parse.ofSource brokenLoop).program).perform .initial).machine

/-- That function runs into the limit on calls. -/
theorem parsed_sound_brokenLoop :
    (Parse.ofSource brokenLoop).errors ≠ [] ∧ afterBrokenLoop.store.Holds Value.Sound ∧
    ∃ function, afterBrokenLoop.store.find? globalScope "f" = some function ∧ function.Sound ∧
      ((call { depth := 5 } function [.integer 1]).perform afterBrokenLoop).result =
        .error .recursionLimit := by
  have hstore : afterBrokenLoop.store.Holds Value.Sound := by
    rw [afterBrokenLoop]
    exact (parsed_sound.2.1 {} brokenLoop Numeral.usualLimit).store
  have hcalled : (afterBrokenLoop.store.find? globalScope "f").map (fun function =>
      ((call { depth := 5 } function [.integer 1]).perform afterBrokenLoop).result.isOk) =
        some false := by
    decide +kernel
  refine ⟨by decide +kernel, hstore, ?_⟩
  obtain ⟨function, hfunction, hresult⟩ := Option.map_eq_some_iff.1 hcalled
  have hsound : function.Sound := hstore.of_find? hfunction
  have hcall := (parsed_sound.2.2 { depth := 5 } afterBrokenLoop hstore).2 function [.integer 1]
    hsound (List.forall_mem_singleton.2 (.integer 1))
  refine ⟨function, hfunction, hsound, ?_⟩
  cases hend : ((call { depth := 5 } function [.integer 1]).perform afterBrokenLoop).result with
  | ok value =>
      rw [hend] at hresult
      cases hresult
  | error fault => rw [hcall.fault fault hend]

end Settings

end MonkeyLanguage
