-- SUMMARY: The nodes that a run works on are parts of the program, each where it belongs.
import MonkeyLanguage.Proofs.Grammar
import MonkeyLanguage.Proofs.Run.Contents

/-!
# The code of a run

A run works on nothing but parts of its program: the nodes in its frames and the bodies of its
functions come from there. So what holds of all parts of a program, with the places that they
have in it, holds of all code that comes up in the run.
-/

namespace MonkeyLanguage

/-- The alternative of a conditional, if there is one. -/
def Node.alternativeParts : Node → List Phrase
  | missing => []
  | alternative => [.block alternative]

/-- The keys and values of pairs. -/
def Node.pairParts (pairs : List (Node × Node)) : List Phrase :=
  pairs.flatMap fun pair => [.expression pair.1, .expression pair.2]

/-- The parts of a node, and as what they stand there. -/
def Node.parts : Node → List Phrase
  | program _ statements => statements.map .statement
  | letStatement _ _ value => [.expression value]
  | returnStatement _ value => [.expression value]
  | expressionStatement _ value => [.expression value]
  | block _ statements => statements.map .statement
  | prefixed _ _ right => [.expression right]
  | binary _ _ left right => [.expression left, .expression right]
  | conditional _ condition consequence alternative =>
    .expression condition :: .block consequence :: alternative.alternativeParts
  | function _ _ body => [.block body]
  | call _ callee arguments => .expression callee :: arguments.map .expression
  | array _ elements => elements.map .expression
  | hash _ pairs => pairParts pairs
  | index _ target key => [.expression target, .expression key]
  | _ => []

/-- The nodes that a frame has yet to evaluate. -/
def Frame.parts : Frame → List Phrase
  | next _ rest => rest.map .statement
  | left _ _ node => [.expression node]
  | condition _ consequence alternative => .block consequence :: alternative.alternativeParts
  | callee _ arguments => arguments.map .expression
  | item _ _ _ rest => rest.map .expression
  | key _ _ node rest => .expression node :: Node.pairParts rest
  | entry _ _ _ rest => Node.pairParts rest
  | target _ node => [.expression node]
  | _ => []

/-- A property of nodes at their places that goes over to their parts. -/
def Hereditary (P : Phrase → Prop) : Prop :=
  ∀ node, P (.expression node) ∨ P (.statement node) ∨ P (.block node) →
    ∀ part ∈ node.parts, P part

/-- The parts of the node that is evaluated have a property. -/
def Control.Shaped (P : Phrase → Prop) : Control → Prop
  | evaluate _ node => ∀ part ∈ node.parts, P part
  | _ => True

/-- The node that is evaluated has a property, as whatever it stands there. -/
def Control.Placed (P : Phrase → Prop) : Control → Prop
  | evaluate _ node => P (.expression node) ∨ P (.statement node) ∨ P (.block node)
  | _ => True

namespace Moment

/-- All code that is around at a moment, but for that of functions, has a property. -/
structure Shaped (P : Phrase → Prop) (moment : Moment) : Prop where
  control : moment.control.Shaped P
  frames : ∀ frame ∈ moment.frames, ∀ part ∈ frame.parts, P part

/-- After the first step of a run, the node that is evaluated is itself a part of something. -/
structure Placed (P : Phrase → Prop) (moment : Moment) : Prop where
  control : moment.control.Placed P
  frames : ∀ frame ∈ moment.frames, ∀ part ∈ frame.parts, P part

variable {P : Phrase → Prop} {host : Host} {frames : List Frame} {depth : Nat} {machine : Machine}

section

variable (hframes : ∀ frame ∈ frames, ∀ part ∈ frame.parts, P part)

include hframes

theorem placed_answer (value : Value) : Placed P ⟨.answer value, frames, depth, machine⟩ :=
  ⟨trivial, hframes⟩

theorem placed_after (computation : Eval Value) :
    Placed P (after frames depth machine computation) := by
  unfold after
  split <;> exact ⟨trivial, hframes⟩

theorem placed_evaluate {scope : ScopeId} {node : Node} {frame : Frame}
    (hnode : P (.expression node) ∨ P (.statement node) ∨ P (.block node))
    (hframe : ∀ part ∈ frame.parts, P part) :
    Placed P ⟨.evaluate scope node, frame :: frames, depth, machine⟩ :=
  ⟨hnode, List.forall_mem_cons.2 ⟨hframe, hframes⟩⟩

theorem placed_alone {scope : ScopeId} {node : Node} {frame : Frame}
    (hnode : ∀ part ∈ [Phrase.expression node], P part) (hframe : frame.parts = []) :
    Placed P ⟨.evaluate scope node, frame :: frames, depth, machine⟩ := by
  refine placed_evaluate hframes (.inl (List.forall_mem_singleton.1 hnode)) ?_
  rw [hframe]
  exact List.forall_mem_nil _

theorem placed_sequence (scope : ScopeId) (last : Value) {statements : List Node}
    (h : ∀ part ∈ statements.map Phrase.statement, P part) :
    Placed P (sequence frames depth machine scope last statements) := by
  cases statements with
  | nil => exact placed_answer hframes last
  | cons statement rest =>
      obtain ⟨hstatement, hrest⟩ := List.forall_mem_cons.1 h
      exact placed_evaluate hframes (.inr (.inl hstatement)) hrest

theorem placed_collect (scope : ScopeId) (collector : Collector) (before : List Value)
    {nodes : List Node} (h : ∀ part ∈ nodes.map Phrase.expression, P part) :
    Placed P (collect frames depth machine scope collector before nodes) := by
  cases nodes with
  | nil => cases collector <;> exact ⟨trivial, hframes⟩
  | cons node rest =>
      obtain ⟨hnode, hrest⟩ := List.forall_mem_cons.1 h
      exact placed_evaluate hframes (.inl hnode) hrest

theorem placed_gather (scope : ScopeId) (entries : List (HashKey × Value))
    {pairs : List (Node × Node)} (h : ∀ part ∈ Node.pairParts pairs, P part) :
    Placed P (gather frames depth machine scope entries pairs) := by
  cases pairs with
  | nil => exact placed_answer hframes _
  | cons pair rest =>
      obtain ⟨hkey, hrest⟩ := List.forall_mem_cons.1 h
      exact placed_evaluate hframes (.inl hkey) hrest

theorem placed_otherwise (scope : ScopeId) {alternative : Node}
    (h : ∀ part ∈ alternative.alternativeParts, P part) :
    Placed P (otherwise frames depth machine scope alternative) := by
  cases alternative with
  | missing => exact placed_answer hframes _
  | _ =>
      exact placed_evaluate hframes (.inr (.inr (List.forall_mem_singleton.1 h)))
        (List.forall_mem_nil _)

theorem placed_start (scope : ScopeId) {node : Node} (h : ∀ part ∈ node.parts, P part) :
    Placed P (start frames depth machine scope node) := by
  cases node with
  | program =>
      have hreceive : ∀ frame ∈ Frame.receive :: frames, ∀ part ∈ frame.parts, P part :=
        List.forall_mem_cons.2 ⟨List.forall_mem_nil _, hframes⟩
      exact placed_sequence hreceive scope _ h
  | letStatement => exact placed_alone hframes h rfl
  | returnStatement => exact placed_alone hframes h rfl
  | expressionStatement token value =>
      exact ⟨.inl (List.forall_mem_singleton.1 h), hframes⟩
  | block => exact placed_sequence hframes scope _ h
  | prefixed => exact placed_alone hframes h rfl
  | binary =>
      obtain ⟨hleft, hright⟩ := List.forall_mem_cons.1 h
      exact placed_evaluate hframes (.inl hleft) hright
  | conditional =>
      obtain ⟨hcondition, hblocks⟩ := List.forall_mem_cons.1 h
      exact placed_evaluate hframes (.inl hcondition) hblocks
  | function =>
      rw [start]
      exact placed_after hframes _
  | call =>
      obtain ⟨hcallee, harguments⟩ := List.forall_mem_cons.1 h
      exact placed_evaluate hframes (.inl hcallee) harguments
  | array =>
      rw [start]
      exact placed_collect hframes scope _ _ h
  | hash => exact placed_gather hframes scope _ h
  | index =>
      obtain ⟨htarget, hkey⟩ := List.forall_mem_cons.1 h
      exact placed_evaluate hframes (.inl htarget) hkey
  | _ => exact ⟨trivial, hframes⟩

theorem placed_enter {arguments : List Value} {function : Value} {next : Moment} {returns : Prop}
    (hfunction : function.Clean returns fun _ body => P (.block body))
    (h : Enters host frames machine arguments function depth next) : Placed P next := by
  cases h with
  | builtin => exact placed_after hframes _
  | body =>
      cases hfunction with
      | closure hbody => exact placed_evaluate hframes (.inr (.inr hbody)) (List.forall_mem_nil _)
  | _ => exact ⟨trivial, hframes⟩

theorem placed_resume (value : Value) {frame : Frame} (h : ∀ part ∈ frame.parts, P part) :
    Placed P (resume host frames depth machine value frame) := by
  cases frame with
  | next scope rest =>
      simp only [resume]
      split
      · exact ⟨trivial, hframes⟩
      · exact placed_sequence hframes scope _ h
  | bind => exact placed_after hframes _
  | left => exact placed_alone hframes h rfl
  | condition scope consequence alternative =>
      obtain ⟨hconsequence, halternative⟩ := List.forall_mem_cons.1 h
      simp only [resume]
      split
      · exact placed_evaluate hframes (.inr (.inr hconsequence)) (List.forall_mem_nil _)
      · exact placed_otherwise hframes scope halternative
  | callee =>
      rw [resume]
      exact placed_collect hframes _ _ _ h
  | item =>
      rw [resume]
      exact placed_collect hframes _ _ _ h
  | key scope entries node rest =>
      obtain ⟨hnode, hrest⟩ := List.forall_mem_cons.1 h
      simp only [resume]
      split
      · exact ⟨trivial, hframes⟩
      · exact placed_evaluate hframes (.inl hnode) hrest
  | entry => exact placed_gather hframes _ _ h
  | target => exact placed_alone hframes h rfl
  | _ => exact ⟨trivial, hframes⟩

end

/-- A step gets to nothing but parts of what is there. -/
theorem Shaped.placed_step {moment next : Moment} {returns : Prop} (h : moment.Shaped P)
    (hholds : moment.Holds returns fun _ body => P (.block body))
    (hstep : moment.step host = some next) : next.Placed P := by
  obtain ⟨hcontrol, hframes⟩ := h
  cases turns_of_step hstep with
  | start scope node => exact placed_start hframes scope hcontrol
  | enter henters => exact placed_enter hframes hholds.control.1 henters
  | resume value frame =>
      obtain ⟨hframe, hbelow⟩ := List.forall_mem_cons.1 hframes
      exact placed_resume hbelow value hframe
  | _ => exact ⟨trivial, (List.forall_mem_cons.1 hframes).2⟩

theorem Placed.shaped {moment : Moment} (hP : Hereditary P) (h : moment.Placed P) :
    moment.Shaped P := by
  obtain ⟨control, frames, depth, machine⟩ := moment
  refine ⟨?_, h.frames⟩
  cases control with
  | evaluate scope node => exact hP node h.control
  | _ => trivial

theorem Shaped.step {moment next : Moment} {returns : Prop} (hP : Hereditary P)
    (h : moment.Shaped P) (hholds : moment.Holds returns fun _ body => P (.block body))
    (hstep : moment.step host = some next) : next.Shaped P :=
  (h.placed_step hholds hstep).shaped hP

end Moment

end MonkeyLanguage
