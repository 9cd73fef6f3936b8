-- SUMMARY: Programs with returns in statements only, whose runs keep the law of returned values.
import MonkeyLanguage.Proofs.Canonical.Reparse
import MonkeyLanguage.Proofs.Run.Returns

/-!
# Returns in their place

Whether a run lets a returned value out depends on what happens in it. This module looks at the
program alone: if no `return` stands inside of an expression that is wanted as a value, other than
in the body of a function, then no run of the program lets one out. Since an expression can hold
a `return` only in a branch of a conditional, the condition says that conditionals with a `return`
in a branch stand nowhere but as whole expression statements.
-/

namespace MonkeyLanguage

namespace Node

mutual

/-- Whether there is a `return` in the node, other than in the body of a function. -/
def returns : Node → Bool
  | program _ statements => returnsAny statements
  | letStatement _ _ value => value.returns
  | returnStatement .. => true
  | expressionStatement _ value => value.returns
  | block _ statements => returnsAny statements
  | prefixed _ _ right => right.returns
  | binary _ _ left right => left.returns || right.returns
  | conditional _ condition consequence alternative =>
    condition.returns || consequence.returns || alternative.returns
  | call _ callee arguments => callee.returns || returnsAny arguments
  | array _ elements => returnsAny elements
  | hash _ pairs => returnsAnyPair pairs
  | index _ target key => target.returns || key.returns
  | _ => false

def returnsAny : List Node → Bool
  | [] => false
  | node :: rest => node.returns || returnsAny rest

def returnsAnyPair : List (Node × Node) → Bool
  | [] => false
  | (key, value) :: rest => key.returns || value.returns || returnsAnyPair rest

end

mutual

/-- Whether no `return` stands inside of an expression that is wanted as a value, in the node and
in the functions in it. -/
def inPlace : Node → Bool
  | program _ statements => allInPlace statements
  | letStatement _ _ value => !value.returns && value.inPlace
  | returnStatement _ value => !value.returns && value.inPlace
  | expressionStatement _ value => value.inPlace
  | block _ statements => allInPlace statements
  | prefixed _ _ right => !right.returns && right.inPlace
  | binary _ _ left right => !left.returns && left.inPlace && (!right.returns && right.inPlace)
  | conditional _ condition consequence alternative =>
    !condition.returns && condition.inPlace && (consequence.inPlace && alternative.inPlace)
  | function _ _ body => body.inPlace
  | call _ callee arguments =>
    !callee.returns && callee.inPlace && (!returnsAny arguments && allInPlace arguments)
  | array _ elements => !returnsAny elements && allInPlace elements
  | hash _ pairs => !returnsAnyPair pairs && pairsInPlace pairs
  | index _ target key => !target.returns && target.inPlace && (!key.returns && key.inPlace)
  | _ => true

def allInPlace : List Node → Bool
  | [] => true
  | node :: rest => node.inPlace && allInPlace rest

def pairsInPlace : List (Node × Node) → Bool
  | [] => true
  | (key, value) :: rest => key.inPlace && value.inPlace && pairsInPlace rest

end

end Node

/-! ## Frames that bar returned values -/

/-- Whether a frame hands a returned value on to the frames below. -/
def Frame.passesOn : Frame → Bool
  | next .. => true
  | branch => true
  | _ => false

/-- Whether a returned value would get to a frame that wants a value. -/
def barred : List Frame → Bool
  | [] => false
  | frame :: below => if frame.passesOn then barred below else frame.wantsValue

/-- A node can be evaluated, with some frames waiting: it has no `return` if these bar it. -/
structure Node.Fits (frames : List Frame) (node : Node) : Prop where
  inPlace : node.inPlace = true
  returns : barred frames = true → node.returns = false

/-- A node can be evaluated anywhere. -/
structure Node.Plain (node : Node) : Prop where
  inPlace : node.inPlace = true
  returns : node.returns = false

/-- The nodes that a frame keeps can be evaluated when their turn comes. -/
def Frame.Settled (below : List Frame) : Frame → Prop
  | next _ rest => ∀ statement ∈ rest, statement.Fits below
  | send => barred below = false
  | left _ _ node => node.Plain
  | condition _ consequence alternative => consequence.Fits below ∧ alternative.Fits below
  | callee _ arguments => ∀ argument ∈ arguments, argument.Plain
  | item _ _ _ rest => ∀ node ∈ rest, node.Plain
  | key _ _ node rest => node.Plain ∧ ∀ pair ∈ rest, pair.1.Plain ∧ pair.2.Plain
  | entry _ _ _ rest => ∀ pair ∈ rest, pair.1.Plain ∧ pair.2.Plain
  | target _ node => node.Plain
  | _ => True

def FramesSettled : List Frame → Prop
  | [] => True
  | frame :: below => frame.Settled below ∧ FramesSettled below

def Control.Settled (frames : List Frame) : Control → Prop
  | evaluate _ node => node.Fits frames
  | answer value => barred frames = true → value.isReturned = false
  | _ => True

/-! ## Parts of nodes -/

namespace Node

theorem allInPlace_iff {nodes : List Node} :
    allInPlace nodes = true ↔ ∀ node ∈ nodes, node.inPlace = true := by
  induction nodes with
  | nil => simp [allInPlace]
  | cons node rest ih => simp [allInPlace, ih]

theorem returnsAny_eq_false_iff {nodes : List Node} :
    returnsAny nodes = false ↔ ∀ node ∈ nodes, node.returns = false := by
  induction nodes with
  | nil => simp [returnsAny]
  | cons node rest ih => simp [returnsAny, ih]

theorem plain_of_allInPlace {nodes : List Node} (hreturns : returnsAny nodes = false)
    (h : allInPlace nodes = true) : ∀ node ∈ nodes, node.Plain := by
  intro node hnode
  exact ⟨allInPlace_iff.1 h node hnode, returnsAny_eq_false_iff.1 hreturns node hnode⟩

theorem plain_of_pairsInPlace {pairs : List (Node × Node)} (hreturns : returnsAnyPair pairs = false)
    (h : pairsInPlace pairs = true) : ∀ pair ∈ pairs, pair.1.Plain ∧ pair.2.Plain := by
  induction pairs with
  | nil => nofun
  | cons pair rest ih =>
      simp only [returnsAnyPair, Bool.or_eq_false_iff] at hreturns
      simp only [pairsInPlace, Bool.and_eq_true] at h
      refine List.forall_mem_cons.2 ⟨⟨⟨h.1.1, hreturns.1.1⟩, ⟨h.1.2, hreturns.1.2⟩⟩, ?_⟩
      exact ih hreturns.2 h.2

theorem fits_of_allInPlace {frames : List Frame} {nodes : List Node} (h : allInPlace nodes = true)
    (hreturns : barred frames = true → returnsAny nodes = false) :
    ∀ node ∈ nodes, node.Fits frames := by
  intro node hnode
  exact ⟨allInPlace_iff.1 h node hnode, fun hbarred =>
    returnsAny_eq_false_iff.1 (hreturns hbarred) node hnode⟩

theorem Plain.fits {node : Node} (h : node.Plain) (frames : List Frame) : node.Fits frames :=
  ⟨h.inPlace, fun _ => h.returns⟩

end Node

namespace Moment

variable {host : Host} {frames : List Frame} {depth : Nat} {machine : Machine}

/-- No node at a moment has a `return` that could get to where a value is wanted. -/
structure Settled (moment : Moment) : Prop where
  frames : FramesSettled moment.frames
  control : moment.control.Settled moment.frames

/-! ## Steps -/

section

variable (hframes : FramesSettled frames)

include hframes

theorem settled_answer {value : Value} (h : value.isReturned = false) :
    Settled ⟨.answer value, frames, depth, machine⟩ :=
  ⟨hframes, fun _ => h⟩

theorem settled_after {computation : Eval Value}
    (h : ∀ value final, computation machine = .ok value final → value.isReturned = false) :
    Settled (after frames depth machine computation) := by
  unfold after
  cases hresult : computation machine with
  | ok value final => exact settled_answer hframes (h value final hresult)
  | error fault final => exact ⟨hframes, trivial⟩

theorem settled_operand {scope : ScopeId} {node : Node} {frame : Frame} (hnode : node.Plain)
    (hframe : frame.Settled frames) :
    Settled ⟨.evaluate scope node, frame :: frames, depth, machine⟩ :=
  ⟨⟨hframe, hframes⟩, hnode.fits _⟩

theorem settled_sequence (scope : ScopeId) {last : Value} {statements : List Node}
    (hlast : last.isReturned = false) (h : ∀ statement ∈ statements, statement.Fits frames) :
    Settled (sequence frames depth machine scope last statements) := by
  cases statements with
  | nil => exact settled_answer hframes hlast
  | cons statement rest =>
      obtain ⟨hstatement, hrest⟩ := List.forall_mem_cons.1 h
      exact ⟨⟨hrest, hframes⟩, hstatement.inPlace, hstatement.returns⟩

theorem settled_collect (scope : ScopeId) (collector : Collector) (before : List Value)
    {nodes : List Node} (h : ∀ node ∈ nodes, node.Plain) :
    Settled (collect frames depth machine scope collector before nodes) := by
  cases nodes with
  | nil =>
      cases collector with
      | arguments function => exact ⟨hframes, trivial⟩
      | elements => exact settled_answer hframes rfl
  | cons node rest =>
      obtain ⟨hnode, hrest⟩ := List.forall_mem_cons.1 h
      exact settled_operand hframes hnode hrest

theorem settled_gather (scope : ScopeId) (entries : List (HashKey × Value))
    {pairs : List (Node × Node)} (h : ∀ pair ∈ pairs, pair.1.Plain ∧ pair.2.Plain) :
    Settled (gather frames depth machine scope entries pairs) := by
  cases pairs with
  | nil => exact settled_answer hframes rfl
  | cons pair rest =>
      obtain ⟨hpair, hrest⟩ := List.forall_mem_cons.1 h
      exact settled_operand hframes hpair.1 ⟨hpair.2, hrest⟩

theorem settled_branch {scope : ScopeId} {node : Node} (h : node.Fits frames) :
    Settled ⟨.evaluate scope node, .branch :: frames, depth, machine⟩ :=
  ⟨⟨trivial, hframes⟩, h.inPlace, h.returns⟩

theorem settled_otherwise (scope : ScopeId) {alternative : Node} (h : alternative.Fits frames) :
    Settled (otherwise frames depth machine scope alternative) := by
  cases alternative with
  | missing => exact settled_answer hframes rfl
  | _ => exact settled_branch hframes h

theorem settled_start {code : List Node → Node → Prop} (scope : ScopeId) {node : Node}
    (hstore : machine.store.Holds (Value.Clean False code)) (h : node.Fits frames) :
    Settled (start frames depth machine scope node) := by
  obtain ⟨hplace, hreturns⟩ := h
  cases node with
  | program token statements =>
      have hreceive : FramesSettled (.receive :: frames) := ⟨trivial, hframes⟩
      exact settled_sequence hreceive scope rfl (Node.fits_of_allInPlace hplace nofun)
  | letStatement token name value =>
      simp only [Node.inPlace, Bool.and_eq_true, Bool.not_eq_true'] at hplace
      exact settled_operand hframes ⟨hplace.2, hplace.1⟩ trivial
  | returnStatement token value =>
      simp only [Node.inPlace, Bool.and_eq_true, Bool.not_eq_true'] at hplace
      refine settled_operand hframes ⟨hplace.2, hplace.1⟩ ?_
      cases hbarred : barred frames with
      | false => exact hbarred
      | true => cases hreturns hbarred
  | expressionStatement token value => exact ⟨hframes, hplace, hreturns⟩
  | block token statements =>
      exact settled_sequence hframes scope rfl (Node.fits_of_allInPlace hplace hreturns)
  | identifier token name =>
      exact settled_answer hframes (hstore.computed_valueOf scope name).isReturned_eq_false
  | prefixed token operator right =>
      simp only [Node.inPlace, Bool.and_eq_true, Bool.not_eq_true'] at hplace
      exact settled_operand hframes ⟨hplace.2, hplace.1⟩ trivial
  | binary token operator left right =>
      simp only [Node.inPlace, Bool.and_eq_true, Bool.not_eq_true'] at hplace
      obtain ⟨⟨hleftReturns, hleft⟩, hrightReturns, hright⟩ := hplace
      have hnode : right.Plain := ⟨hright, hrightReturns⟩
      exact settled_operand hframes ⟨hleft, hleftReturns⟩ hnode
  | conditional token condition consequence alternative =>
      simp only [Node.inPlace, Bool.and_eq_true, Bool.not_eq_true'] at hplace
      obtain ⟨⟨hconditionReturns, hcondition⟩, hconsequence, halternative⟩ := hplace
      simp only [Node.returns, Bool.or_eq_false_iff] at hreturns
      have hblock : consequence.Fits frames := ⟨hconsequence, fun h => (hreturns h).1.2⟩
      have hother : alternative.Fits frames := ⟨halternative, fun h => (hreturns h).2⟩
      exact settled_operand hframes ⟨hcondition, hconditionReturns⟩ ⟨hblock, hother⟩
  | function token parameters body =>
      rw [start]
      apply settled_after hframes
      intro value final hresult
      exact Value.isReturned_of_makeClosure hresult
  | call token callee arguments =>
      simp only [Node.inPlace, Bool.and_eq_true, Bool.not_eq_true'] at hplace
      obtain ⟨⟨hcalleeReturns, hcallee⟩, hargumentsReturn, harguments⟩ := hplace
      have hplain := Node.plain_of_allInPlace hargumentsReturn harguments
      exact settled_operand hframes ⟨hcallee, hcalleeReturns⟩ hplain
  | array token elements =>
      simp only [Node.inPlace, Bool.and_eq_true, Bool.not_eq_true'] at hplace
      rw [start]
      exact settled_collect hframes scope _ _ (Node.plain_of_allInPlace hplace.1 hplace.2)
  | hash token pairs =>
      simp only [Node.inPlace, Bool.and_eq_true, Bool.not_eq_true'] at hplace
      exact settled_gather hframes scope _ (Node.plain_of_pairsInPlace hplace.1 hplace.2)
  | index token target key =>
      simp only [Node.inPlace, Bool.and_eq_true, Bool.not_eq_true'] at hplace
      obtain ⟨⟨htargetReturns, htarget⟩, hkeyReturns, hkey⟩ := hplace
      have hnode : key.Plain := ⟨hkey, hkeyReturns⟩
      exact settled_operand hframes ⟨htarget, htargetReturns⟩ hnode
  | missing => exact ⟨hframes, trivial⟩
  | foreign => exact ⟨hframes, trivial⟩
  | _ => exact settled_answer hframes rfl

theorem settled_enter {arguments : List Value} {function : Value} {next : Moment}
    (hfunction : function.Clean False fun _ body => body.inPlace = true)
    (h : Enters host frames machine arguments function depth next) : next.Settled := by
  cases h with
  | refused => exact settled_answer hframes rfl
  | builtin builtin =>
      exact settled_after hframes fun _ _ hresult => Value.isReturned_of_callBuiltin hresult
  | unnamed => exact ⟨hframes, trivial⟩
  | exhausted => exact ⟨hframes, trivial⟩
  | body =>
      cases hfunction with
      | closure hbody => exact ⟨⟨trivial, hframes⟩, hbody, nofun⟩

theorem settled_resume {code : List Node → Node → Prop} {value : Value} {frame : Frame}
    (hframe : frame.Settled frames) (hanswer : value.Answer False code)
    (hkept : ∀ kept ∈ frame.values, kept.Clean False code)
    (hvalue : barred (frame :: frames) = true → value.isReturned = false) :
    Settled (resume host frames depth machine value frame) := by
  have hreceived : value.received.isReturned = false :=
    Bool.eq_false_iff.2 fun h => hanswer.of_isReturned_received h
  cases frame with
  | receive => exact settled_answer hframes hreceived
  | next scope rest =>
      simp only [resume]
      split
      · exact ⟨hframes, hvalue⟩
      case isFalse hsignal =>
        exact settled_sequence hframes scope (Value.isReturned_of_not_isSignal hsignal) hframe
  | bind scope name =>
      rw [resume]
      apply settled_after hframes
      intro result final hresult
      rw [eq_of_bindNode hresult]
      exact hvalue rfl
  | send =>
      refine ⟨hframes, fun hbarred => ?_⟩
      change barred frames = true at hbarred
      rw [show barred frames = false from hframe] at hbarred
      cases hbarred
  | operand operator => exact settled_answer hframes (Value.isReturned_prefixed operator value)
  | left => exact settled_operand hframes hframe trivial
  | right operator left =>
      exact settled_answer hframes (Value.isReturned_binary operator left value _)
  | condition scope consequence alternative =>
      simp only [resume]
      split
      · exact settled_branch hframes hframe.1
      · exact settled_otherwise hframes scope hframe.2
  | branch => exact ⟨hframes, hvalue⟩
  | callee =>
      rw [resume]
      exact settled_collect hframes _ _ _ hframe
  | item =>
      rw [resume]
      exact settled_collect hframes _ _ _ hframe
  | key scope entries node rest =>
      simp only [resume]
      split
      · exact settled_answer hframes rfl
      · exact settled_operand hframes hframe.1 hframe.2
  | entry => exact settled_gather hframes _ _ hframe
  | target => exact settled_operand hframes hframe trivial
  | index target =>
      have hcomputed := (hkept target List.mem_cons_self).lookUp value
      exact settled_answer hframes hcomputed.isReturned_eq_false
  | body => exact settled_answer hframes hreceived

end

theorem Settled.step {moment next : Moment} (h : moment.Settled)
    (hholds : moment.Holds False fun _ body => body.inPlace = true)
    (hstep : moment.step host = some next) : next.Settled := by
  obtain ⟨hframes, hcontrol⟩ := h
  cases turns_of_step hstep with
  | start scope node => exact settled_start hframes scope hholds.store hcontrol
  | enter henters => exact settled_enter hframes hholds.control.1 henters
  | @past value _ _ _ _ _ herror =>
      cases value with
      | error cause => exact settled_answer hframes.2 rfl
      | _ => cases herror
  | resume value frame =>
      have hkept := (List.forall_mem_cons.1 hholds.frames).1
      exact settled_resume hframes.2 hframes.1 hholds.control hkept hcontrol
  | unwind => exact ⟨hframes.2, trivial⟩

theorem barred_of_wantsValue {frame : Frame} (h : frame.wantsValue = true) (below : List Frame) :
    barred (frame :: below) = true := by
  cases frame <;> first | exact h | cases h

theorem Settled.wantsClean {moment : Moment} {code : List Node → Node → Prop} (h : moment.Settled)
    (hholds : moment.Holds False code) : moment.WantsClean False code := by
  obtain ⟨control, frames, depth, machine⟩ := moment
  rintro value frame below rfl rfl hwants herror
  apply hholds.control.clean_of_returned herror
  intro hreturned
  rw [h.control (barred_of_wantsValue hwants below)] at hreturned
  cases hreturned

theorem Settled.reaches {first later : Moment} (h : first.Settled)
    (hholds : first.Holds False fun _ body => body.inPlace = true)
    (hreaches : Reaches host first later) :
    later.Settled ∧ later.Holds False fun _ body => body.inPlace = true := by
  induction hreaches with
  | refl => exact ⟨h, hholds⟩
  | @tail middle next _ hstep ih =>
      obtain ⟨hsettled, hkeeps⟩ := ih
      refine ⟨hsettled.step hkeeps hstep, hkeeps.step (hsettled.wantsClean hkeeps) ?_ hstep⟩
      intro scope token parameters body hcontrol
      have hnode := hsettled.control
      rw [hcontrol] at hnode
      exact hnode.inPlace

end Moment

namespace Settings

variable (settings : Settings)

/-- With all returns in their place, no conditional comes out as a returned value where a value is
wanted. -/
theorem conditionalsAnswer_of_inPlace {program : Node} (h : program.inPlace = true) :
    settings.ConditionalsAnswer program := by
  have hsettled : (settings.begin globalScope program .initial).Settled := ⟨trivial, h, nofun⟩
  have hholds : (settings.begin globalScope program .initial).Holds False
      fun _ body => body.inPlace = true := by
    refine ⟨?_, nofun, trivial⟩
    rw [begin, Moment.store_trace]
    exact holds_initial _
  intro scope token condition consequence alternative frame below depth machine hreaches hwants
    value final hmeaning
  have hanswer := hreaches.trans (Moment.arrives_of_ok hmeaning)
  exact (hsettled.reaches hholds hanswer).1.control (Moment.barred_of_wantsValue hwants below)

/-- The run of a source text keeps the law of returned values exactly if no conditional in it that
stands where a value is wanted comes out as a returned value. All runs of the text keep the law if
no `return` stands inside of an expression that is wanted as a value. -/
theorem returnsEnd_ofSource (source : String) :
    (settings.ReturnsEnd (Parse.ofSource source).program ↔
      settings.ConditionalsAnswer (Parse.ofSource source).program) ∧
    ((Parse.ofSource source).program.inPlace = true →
      settings.ReturnsEnd (Parse.ofSource source).program) := by
  have hprogram := Parse.wellFormed_ofSource source Numeral.usualLimit
  refine ⟨⟨fun h => h.conditionalsAnswer hprogram, fun h => h.returnsEnd hprogram⟩, fun h => ?_⟩
  exact (settings.conditionalsAnswer_of_inPlace h).returnsEnd hprogram

/-- A program that returns out of a branch of a conditional that is a statement of a function. -/
def returnEarly : String := "fn(x) \x7b if (x) \x7b return 1 \x7d; 2 \x7d(true)"

theorem returnsEnd_ofSource_returnEarly :
    (Parse.ofSource returnEarly).program.inPlace = true ∧
      Settings.ReturnsEnd {} (Parse.ofSource returnEarly).program := by
  have hplace : (Parse.ofSource returnEarly).program.inPlace = true := by decide +kernel
  exact ⟨hplace, (returnsEnd_ofSource {} returnEarly).2 hplace⟩

/-- A program whose only statement returns what a `return` in a branch sends up. -/
def returnTwice : String := "return if (true) \x7b return 1 \x7d"

theorem not_returnsEnd_returnTwice :
    (Parse.ofSource returnTwice).errors = [] ∧
      ¬ Settings.ReturnsEnd {} (Parse.ofSource returnTwice).program := by
  refine ⟨rfl, fun h => ?_⟩
  have hrun : ∃ final, Settings.run {} globalScope (Parse.ofSource returnTwice).program .initial =
      .ok (.returned (.integer 1)) final := ⟨_, rfl⟩
  obtain ⟨final, hrun⟩ := hrun
  cases h.result _ _ hrun

end Settings

end MonkeyLanguage
